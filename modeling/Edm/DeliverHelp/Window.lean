import Edm.DeliverHelp.Report
import Edm.Support.Rows

/-!
# DeliverHelp — Window

The verdicts on the windows (command 2003).  A rule of `deliver_quantity` allows so many
deliveries in so many seconds.  `add_deliver_quantity` counts a report in one window for each
`seconds`, under the rule that MySQL shows for it; `bdb_query_status` asks for the most specific rule
of the window (`selectOne_eq_some`), and says `stop` when the counter is above its quantity.

It does not look at the age of the window.  A window is over only for the next report, so that the
verdict on a pair that sends nothing stays `stop` for ever (`stops_for_ever`).  `verdict_iff` says
when the verdict is right.
-/

namespace Edm.DeliverHelp
open Support

/-! ### The table `deliver_quantity` -/

/-- How its collation compares two texts. -/
def sqlEq (a b : Text) : Bool := tolower a == tolower b

/-- A row of `deliver_quantity`. -/
structure Rule where
  from_domain : Text
  rcpt_domain : Text
  quantity : Int
  seconds : Int
  quantity_int : IsInt quantity
  seconds_int : IsInt seconds
  deriving DecidableEq

namespace Rule
variable (r : Rule)

/-- Its primary key. -/
def key : Text × Text × Int := (tolower r.from_domain, tolower r.rcpt_domain, r.seconds)

/-- `if(from_domain='ANY',2,1)+if(rcpt_domain='OTHER',20,10)`. -/
def lv : Nat :=
  (if sqlEq r.from_domain "ANY".toList then 2 else 1) +
    (if sqlEq r.rcpt_domain "OTHER".toList then 20 else 10)

/-- `from_domain in(…, 'ANY') and rcpt_domain in(…, 'OTHER') and quantity > 0`. -/
def suits (from_ rcpt : Text) : Bool :=
  (sqlEq r.from_domain from_ || sqlEq r.from_domain "ANY".toList) &&
    (sqlEq r.rcpt_domain rcpt || sqlEq r.rcpt_domain "OTHER".toList) && decide (0 < r.quantity)

/-- `order by seconds, lv`. -/
def before (r r' : Rule) : Prop := r.seconds < r'.seconds ∨ r.seconds = r'.seconds ∧ r.lv ≤ r'.lv

instance : DecidableRel before := fun r r' =>
  inferInstanceAs (Decidable (r.seconds < r'.seconds ∨ r.seconds = r'.seconds ∧ r.lv ≤ r'.lv))

instance : Std.Total before := ⟨fun r r' => by unfold before; omega⟩

instance : IsTrans Rule before := ⟨fun a b c => by unfold before; omega⟩

/-- `order by lv`. -/
def noFarther (r r' : Rule) : Prop := r.lv ≤ r'.lv

instance : DecidableRel noFarther := fun r r' => inferInstanceAs (Decidable (r.lv ≤ r'.lv))

instance : Std.Total noFarther := ⟨fun r r' => Nat.le_total r.lv r'.lv⟩

instance : IsTrans Rule noFarther := ⟨fun _ _ _ => Nat.le_trans⟩

/-- What `add_deliver_quantity` reads of it. -/
def row : Row := ⟨tolower r.rcpt_domain, showInt r.seconds⟩

end Rule

/-- The rows, one for each primary key. -/
structure DeliverQuantity where
  rules : List Rule
  unique : (rules.map Rule.key).Nodup

namespace DeliverQuantity
variable (content : DeliverQuantity)

/-- The rules that `add_deliver_quantity` selects from, in order; they are grouped by `seconds`. -/
def candidates (from_ rcpt : Text) : List Rule :=
  orderBy Rule.before (content.rules.filter fun r => r.suits from_ rcpt && decide (0 < r.seconds))

/-- The rule that `bdb_query_status` selects. -/
def selectOne (from_ rcpt seconds : Text) : Option Rule :=
  (orderBy Rule.noFarther
    (content.rules.filter fun r => r.suits from_ rcpt && decide (r.seconds = atoi seconds))).head?

end DeliverQuantity

/-! ### Reports and queries -/

/-- The windows, and which report was counted in which. -/
structure Windows where
  bdb_status : Text → Option Quantity
  marks : List Mark

/-- A report that is counted.  `fails` says that the query of the rules fails, `group` which row
MySQL shows of each group of rules, and `clock` what `time` says for each of them. -/
structure Counted where
  report : Report
  fails : Bool
  group : List Rule → List Rule
  grouped : ∀ rules, Grouped Rule.seconds rules (group rules)
  clock : Nat → Int × Int × Int

namespace Windows
variable (s : Windows)

def init : Windows := ⟨fun _ => none, []⟩

/-- The body of the loop of `add_deliver_quantity`. -/
def count (from_ : Text) (row : Row) (now : Int × Int × Int) : Windows :=
  let skey := quantityKey from_ row.db_rcpt row.db_seconds
  let counted := Quantity.count (s.bdb_status skey) row.db_seconds now.1 now.2.1 now.2.2
  { bdb_status := Function.update s.bdb_status skey (some counted.1)
    marks := ⟨skey, if counted.2 then some counted.1.chkpoint else none⟩ :: s.marks }

def addDeliverQuantity (content : DeliverQuantity) (c : Counted) : Windows :=
  let rows := if c.fails then []
    else (c.group (content.candidates c.report.from_ c.report.rcpt)).map Rule.row
  rows.zipIdx.foldl (fun s e => s.count c.report.from_ e.1 (c.clock e.2)) s

/-- The reports of a history, one behind the other. -/
def report (content : DeliverQuantity) (history : List Counted) : Windows :=
  history.foldl (addDeliverQuantity · content) s

end Windows

/-- What a query asks for; an empty text asks for all. -/
structure Filter where
  from_ : Text
  rcpt : Text
  status : Text

/-- A line of the answer. -/
structure Line where
  from_ : Text
  rcpt : Text
  quantity : Int
  seconds : Text
  status : Text
  deriving DecidableEq

/-- A text that a query asks for; `strncasecmp` in the code. -/
def asked (text filter : Text) : Bool :=
  filter.isEmpty || (text.length == filter.length && strncasecmpEq text filter)

/-- The parts of a key. -/
def quantityParts (key : Text) : Option (Text × Text × Text) :=
  if "T2|".toList.isPrefixOf key then
    let from_ := cut '|' (key.drop 3)
    let rcpt := cut '|' from_.2
    if '|' ∈ key.drop 3 ∧ '|' ∈ from_.2 then some (from_.1, rcpt.1, rcpt.2) else none
  else none

/-- `bdb_query_status`: the line of a record, if there is one.  `fails` says that the query of the
rule fails. -/
def bdbQueryStatus (content : DeliverQuantity) (fails : Bool) (filter : Filter) (key : Text)
    (data : Quantity) : Option Line :=
  match quantityParts key with
  | none => none
  | some (from_, rcpt, seconds) =>
      if asked from_ filter.from_ && asked rcpt filter.rcpt && !fails then
        match content.selectOne from_ rcpt seconds with
        | none => none
        | some rule =>
            let quantity := atoi (showInt rule.quantity)
            let status := if quantity % 2 ^ 32 < data.numbers then "stop".toList
              else "normal".toList
            if filter.status.isEmpty || strcasecmpEq filter.status status then
              some ⟨from_, rcpt, quantity, seconds, status⟩
            else none
      else none

/-! ### The rule of a window -/

theorem sqlEq_iff {a b : Text} : sqlEq a b = true ↔ tolower a = tolower b := beq_iff_eq

theorem sqlEq_tolower {a b : Text} : sqlEq a (tolower b) = sqlEq a b := by
  rw [sqlEq, tolower_tolower, sqlEq]

namespace Rule
variable {r r' : Rule} {from_ rcpt : Text}

theorem suits_iff : r.suits from_ rcpt = true ↔
    (sqlEq r.from_domain from_ = true ∨ sqlEq r.from_domain "ANY".toList = true) ∧
      (sqlEq r.rcpt_domain rcpt = true ∨ sqlEq r.rcpt_domain "OTHER".toList = true) ∧
        0 < r.quantity := by
  rw [suits, Bool.and_eq_true, Bool.and_eq_true, Bool.or_eq_true, Bool.or_eq_true,
    decide_eq_true_iff,
    and_assoc]

/-- How specific a rule is says which of its domains stand for all. -/
theorem lv_parts {a b a' b' : Bool} (h : (if a then 2 else 1) + (if b then 20 else 10)
    = (if a' then 2 else 1) + (if b' then 20 else 10)) : a = a' ∧ b = b' := by
  cases a <;> cases b <;> cases a' <;> cases b' <;> simp at h ⊢

/-- Two domains that both suit are the same, if both or neither stand for all. -/
theorem domain_eq {a a' b all : Text} (h : sqlEq a b = true ∨ sqlEq a all = true)
    (h' : sqlEq a' b = true ∨ sqlEq a' all = true) (hall : sqlEq a all = sqlEq a' all) :
    tolower a = tolower a' := by
  cases hcase : sqlEq a' all with
  | true => exact (sqlEq_iff.mp (hall.trans hcase)).trans (sqlEq_iff.mp hcase).symm
  | false =>
    rw [hall, hcase, or_iff_left Bool.false_ne_true] at h
    rw [hcase, or_iff_left Bool.false_ne_true] at h'
    exact (sqlEq_iff.mp h).trans (sqlEq_iff.mp h').symm

/-- Two rules for the same domains, equally specific, have the same key. -/
theorem key_of_lv (h : r.suits from_ rcpt = true) (h' : r'.suits from_ rcpt = true)
    (hlv : r.lv = r'.lv) (hseconds : r.seconds = r'.seconds) : r.key = r'.key := by
  obtain ⟨hfrom, hrcpt, -⟩ := suits_iff.mp h
  obtain ⟨hfrom', hrcpt', -⟩ := suits_iff.mp h'
  obtain ⟨hany, hother⟩ := lv_parts hlv
  rw [key, key, domain_eq hfrom hfrom' hany, domain_eq hrcpt hrcpt' hother, hseconds]

/-- A rule that suits the domains of a window suits those of its reports. -/
theorem suits_of_suits (h : r.suits from_ rcpt = true)
    (h' : r'.suits from_ (tolower r.rcpt_domain) = true) : r'.suits from_ rcpt = true := by
  obtain ⟨-, hrcpt, -⟩ := suits_iff.mp h
  obtain ⟨hfrom', hrcpt', hquantity⟩ := suits_iff.mp h'
  refine suits_iff.mpr ⟨hfrom', ?_, hquantity⟩
  rcases hrcpt' with hrcpt' | hrcpt'
  · rw [sqlEq_tolower, sqlEq_iff] at hrcpt'
    exact hrcpt.imp (fun h => sqlEq_iff.mpr (hrcpt'.trans (sqlEq_iff.mp h)))
      fun h => sqlEq_iff.mpr (hrcpt'.trans (sqlEq_iff.mp h))
  · exact .inr hrcpt'

theorem suits_own (h : r.suits from_ rcpt = true) :
    r.suits from_ (tolower r.rcpt_domain) = true := by
  obtain ⟨hfrom, -, hquantity⟩ := suits_iff.mp h
  exact suits_iff.mpr ⟨hfrom, .inl (sqlEq_tolower.trans (sqlEq_iff.mpr rfl)), hquantity⟩

end Rule

theorem bar_not_mem_tolower {s : Text} (h : '|' ∉ s) : '|' ∉ tolower s := by
  intro hmem
  obtain ⟨c, hc, hbar⟩ := List.mem_map.mp hmem
  rcases toLower_cases c with ⟨hsame, -⟩ | ⟨hlow, hhigh, hmoved⟩
  · exact h ((hsame.symm.trans hbar) ▸ hc)
  · have hnat : c.toLower.toNat = 124 := congrArg Char.toNat hbar
    omega

namespace DeliverQuantity
variable {content : DeliverQuantity} {from_ rcpt : Text} {rule : Rule}

theorem mem_candidates : rule ∈ content.candidates from_ rcpt ↔
    rule ∈ content.rules ∧ rule.suits from_ rcpt = true ∧ 0 < rule.seconds := by
  rw [candidates, orderBy, List.mem_insertionSort, List.mem_filter, Bool.and_eq_true,
    decide_eq_true_iff]

/-- `r` is the most specific rule for the domains and the seconds of the window of `rule`. -/
def Leads (content : DeliverQuantity) (from_ : Text) (rule r : Rule) : Prop :=
  r ∈ content.rules ∧ r.suits from_ (tolower rule.rcpt_domain) = true ∧ r.seconds = rule.seconds ∧
    ∀ r' ∈ content.rules, r'.suits from_ (tolower rule.rcpt_domain) = true →
      r'.seconds = rule.seconds → r.lv ≤ r'.lv

/-- The most specific rule of a pair leads the window that it is shown for. -/
theorem leads_self (h : rule ∈ content.candidates from_ rcpt)
    (hleast : ∀ r ∈ content.candidates from_ rcpt, r.seconds = rule.seconds → rule.lv ≤ r.lv) :
    content.Leads from_ rule rule := by
  obtain ⟨hmem, hsuits, hpos⟩ := mem_candidates.mp h
  refine ⟨hmem, Rule.suits_own hsuits, rfl, fun r hr hrsuits hrseconds => ?_⟩
  exact hleast r (mem_candidates.mpr
    ⟨hr, Rule.suits_of_suits hsuits hrsuits, by rw [hrseconds]; exact hpos⟩) hrseconds

/-- The query asks for the rule that leads the window. -/
theorem selectOne_eq_some (h : rule ∈ content.candidates from_ rcpt) :
    ∃ r, content.selectOne from_ rule.row.db_rcpt rule.row.db_seconds = some r ∧
      ∀ r', content.Leads from_ rule r' ↔ r' = r := by
  obtain ⟨hmem, hsuits, -⟩ := mem_candidates.mp h
  have hatoi : atoi rule.row.db_seconds = rule.seconds := atoi_showInt rule.seconds_int
  have hfilter : ∀ {r}, r ∈ (content.rules.filter fun r => r.suits from_ rule.row.db_rcpt &&
      decide (r.seconds = atoi rule.row.db_seconds)) ↔ r ∈ content.rules ∧
        r.suits from_ (tolower rule.rcpt_domain) = true ∧ r.seconds = rule.seconds := by
    intro r
    rw [List.mem_filter, Bool.and_eq_true, decide_eq_true_iff, hatoi]
    rfl
  obtain ⟨r, hr, hhead, hfirst⟩ :=
    @head?_orderBy _ Rule.noFarther _ _ _ _ _ (hfilter.mpr ⟨hmem, Rule.suits_own hsuits, rfl⟩)
  obtain ⟨hrmem, hrsuits, hrseconds⟩ := hfilter.mp hr
  refine ⟨r, hhead, fun r' => ⟨?_, ?_⟩⟩
  · rintro ⟨hmem', hsuits', hseconds', hleast'⟩
    have hlv : r'.lv = r.lv := Nat.le_antisymm (hleast' r hrmem hrsuits hrseconds)
      (hfirst r' (hfilter.mpr ⟨hmem', hsuits', hseconds'⟩))
    have hkey : r'.key = r.key :=
      Rule.key_of_lv hsuits' hrsuits hlv (hseconds'.trans hrseconds.symm)
    exact List.inj_on_of_nodup_map content.unique hmem' hrmem hkey
  · rintro rfl
    exact ⟨hrmem, hrsuits, hrseconds, fun r' hr' hsuits' hseconds' =>
      hfirst r' (hfilter.mpr ⟨hr', hsuits', hseconds'⟩)⟩

/-- A rule counts in a window of its domain, or of all the others. -/
theorem bar_not_mem_db_rcpt (h : rule ∈ content.candidates from_ rcpt)
    (hrcpt : checkDomain rcpt = true) :
    '|' ∉ rule.row.db_rcpt := by
  obtain ⟨-, hsuits, -⟩ := mem_candidates.mp h
  obtain ⟨-, hsame, -⟩ := Rule.suits_iff.mp hsuits
  change '|' ∉ tolower rule.rcpt_domain
  rcases hsame with hsame | hsame
  · rw [sqlEq_iff.mp hsame]
    exact bar_not_mem_tolower (bar_not_mem_domain hrcpt)
  · rw [sqlEq_iff.mp hsame]
    decide

end DeliverQuantity

theorem quantityParts_key {from_ rcpt : Text} (hfrom : '|' ∉ from_) (hrcpt : '|' ∉ rcpt)
    (seconds : Text) :
    quantityParts (quantityKey from_ rcpt seconds) = some (from_, rcpt, seconds) := by
  have hhead : "T2|".toList.isPrefixOf (quantityKey from_ rcpt seconds) = true :=
    List.isPrefixOf_iff_prefix.mpr (List.prefix_append _ _)
  have hrest :
      (quantityKey from_ rcpt seconds).drop 3 = from_ ++ '|' :: (rcpt ++ '|' :: seconds) := rfl
  simp only [quantityParts, if_pos hhead, hrest, cut_append hfrom, cut_append hrcpt]
  rw [if_pos]
  exact ⟨List.mem_append_right _ List.mem_cons_self, List.mem_append_right _ List.mem_cons_self⟩

/-! ### The windows of a history -/

namespace Windows
variable {s : Windows}

/-- A record is the last window of its key, with a counter of 32 bits. -/
def Law (s : Windows) : Prop :=
  ∀ key, s.bdb_status key = (window key s.marks).map fun w => ⟨w.1, w.2 % 2 ^ 32⟩

theorem Law.init : init.Law := fun _ => rfl

theorem Law.count (h : s.Law) (from_ : Text) (row : Row) (now : Int × Int × Int) :
    (s.count from_ row now).Law := by
  intro key
  dsimp only [Windows.count]
  by_cases hkey : quantityKey from_ row.db_rcpt row.db_seconds = key
  · subst hkey
    rw [Function.update_self, window, if_pos rfl]
    rcases Quantity.count_cases
      (s.bdb_status (quantityKey from_ row.db_rcpt row.db_seconds)) row.db_seconds
      now.1 now.2.1 now.2.2 with ⟨hbegins, hone⟩ | ⟨hgoes, data, hdata, hmore⟩
    · rw [if_pos hbegins]
      exact congrArg (fun n => some (Quantity.mk _ n)) hone
    · obtain ⟨w, hw, hold⟩ := Option.map_eq_some_iff.mp ((h _).symm.trans hdata)
      rw [if_neg (Bool.eq_false_iff.mp hgoes), hw, hmore, ← hold]
      exact congrArg (fun n => some (Quantity.mk w.1 n)) (Nat.mod_add_mod _ _ _)
  · rw [Function.update_of_ne (Ne.symm hkey), window, if_neg hkey]
    exact h key

theorem Law.add (h : s.Law) (content : DeliverQuantity) (c : Counted) :
    (s.addDeliverQuantity content c).Law := by
  rw [addDeliverQuantity]
  generalize List.zipIdx _ = rows
  induction rows generalizing s with
  | nil => exact h
  | cons e rows ih => exact ih (h.count _ e.1 (c.clock e.2))

theorem Law.report (h : s.Law) (content : DeliverQuantity) (history : List Counted) :
    (s.report content history).Law := by
  induction history generalizing s with
  | nil => exact h
  | cons c history ih => exact ih (h.add content c)

end Windows

/-! ### The verdict -/

/-- More reports than the rule allows are counted in a window that began in its seconds before
`t`. -/
def Rule.Exceeded (rule : Rule) (t : Int) (w : Option (Int × Nat)) : Prop :=
  ∃ w', w = some w' ∧ rule.quantity < w'.2 ∧ t - w'.1 ≤ rule.seconds

/-- After `n` reports the counter is at the quantity or below: it has gone round so many times. -/
def Rule.Low (rule : Rule) (n : Nat) : Prop :=
  ∃ rounds : Nat, rounds * 2 ^ 32 ≤ n ∧ (n : Int) ≤ rounds * 2 ^ 32 + rule.quantity

/-- A window that is over at `t` has few reports, or just enough for the counter to have gone round;
and the counter of one that is not over has not gone round to the quantity or below. -/
def Rule.Current (rule : Rule) (t : Int) (w : Option (Int × Nat)) : Prop :=
  ∀ begun reports, w = some (begun, reports) →
    if t - begun ≤ rule.seconds then (reports : Int) ≤ rule.quantity ∨ ¬ rule.Low reports
    else rule.Low reports

theorem Rule.low_iff {rule : Rule} (hpos : 0 < rule.quantity) (n : Nat) :
    rule.Low n ↔ ¬ rule.quantity < (n % 2 ^ 32 : Nat) := by
  have hint := rule.quantity_int.2
  constructor
  · rintro ⟨rounds, hle, hlt⟩
    omega
  · intro h
    exact ⟨n / 2 ^ 32, by omega, by omega⟩

/-- The line of a window of a report. -/
theorem bdbQueryStatus_eq_some {content : DeliverQuantity} {p : Report} {rule : Rule}
    (hrule : rule ∈ content.candidates p.from_ p.rcpt) {fails : Bool} {filter : Filter}
    {data : Quantity}
    {line : Line} (hline : bdbQueryStatus content fails filter
      (quantityKey p.from_ rule.row.db_rcpt rule.row.db_seconds) data = some line) :
    ∃ r, (∀ r', content.Leads p.from_ rule r' ↔ r' = r) ∧ 0 < r.quantity ∧
      line = ⟨p.from_, rule.row.db_rcpt, r.quantity, rule.row.db_seconds,
        if r.quantity < data.numbers then "stop".toList else "normal".toList⟩ := by
  obtain ⟨r, hselect, hleads⟩ := DeliverQuantity.selectOne_eq_some hrule
  obtain ⟨-, hsuits, -⟩ := (hleads r).mpr rfl
  obtain ⟨-, -, hpos⟩ := Rule.suits_iff.mp hsuits
  refine ⟨r, hleads, hpos, ?_⟩
  rw [bdbQueryStatus, quantityParts_key (bar_not_mem_domain p.from_ok)
    (DeliverQuantity.bar_not_mem_db_rcpt hrule p.rcpt_ok)] at hline
  have hquantity : r.quantity % 2 ^ 32 = r.quantity := by
    have := r.quantity_int.2
    omega
  simp only [hselect, atoi_showInt r.quantity_int, hquantity] at hline
  obtain ⟨-, hline⟩ := Option.ite_none_right_eq_some.mp hline
  obtain ⟨-, hline⟩ := Option.ite_none_right_eq_some.mp hline
  exact (Option.some.inj hline).symm

/-- A verdict is right exactly when the rule that leads the window has the quantity of the rule that
is shown, and the window is current. -/
theorem verdict_iff (content : DeliverQuantity) (history : List Counted) (t : Int) (p : Report)
    (rule : Rule) (hrule : rule ∈ content.candidates p.from_ p.rcpt) (fails : Bool)
    (filter : Filter) (line : Line) :
    let s := Windows.init.report content history
    let key := quantityKey p.from_ rule.row.db_rcpt rule.row.db_seconds
    (s.bdb_status key).bind (bdbQueryStatus content fails filter key) = some line →
      (line.quantity = rule.quantity ∧
          (line.status = "stop".toList ↔ rule.Exceeded t (window key s.marks)) ↔
        (∀ r, content.Leads p.from_ rule r → r.quantity = rule.quantity) ∧
          rule.Current t (window key s.marks)) := by
  intro s key hline
  obtain ⟨data, hdata, hline⟩ := Option.bind_eq_some_iff.mp hline
  have hlaw : s.Law := Windows.Law.init.report content history
  obtain ⟨⟨begun, reports⟩, hw, hdata⟩ := Option.map_eq_some_iff.mp ((hlaw key).symm.trans hdata)
  obtain ⟨r, hleads, hpos, hr⟩ := bdbQueryStatus_eq_some hrule hline
  have hquantity : (∀ r', content.Leads p.from_ rule r' → r'.quantity = rule.quantity) ↔
      r.quantity = rule.quantity :=
    ⟨fun h => h r ((hleads r).mpr rfl), fun h r' hr' => (hleads r').mp hr' ▸ h⟩
  rw [hr, ← hdata, hw, hquantity]
  dsimp only
  refine and_congr_right fun hsame => ?_
  rw [hsame] at hpos ⊢
  have hstop : (if rule.quantity < (reports % 2 ^ 32 : Nat) then "stop".toList
      else "normal".toList) = "stop".toList ↔ rule.quantity < (reports % 2 ^ 32 : Nat) := by
    split
    next h => exact iff_of_true rfl h
    next h => exact iff_of_false (by decide) h
  have hexceeded : rule.Exceeded t (some (begun, reports)) ↔
      rule.quantity < reports ∧ t - begun ≤ rule.seconds := by
    constructor
    · rintro ⟨_, ⟨⟩, h⟩
      exact h
    · exact fun h => ⟨_, rfl, h⟩
  have hcurrent : rule.Current t (some (begun, reports)) ↔
      if t - begun ≤ rule.seconds then (reports : Int) ≤ rule.quantity ∨ ¬ rule.Low reports
      else rule.Low reports := by
    constructor
    · exact fun h => h begun reports rfl
    · rintro h _ _ ⟨⟩
      exact h
  rw [hexceeded, hcurrent, hstop]
  by_cases hopen : t - begun ≤ rule.seconds
  · rw [if_pos hopen, Rule.low_iff hpos, not_not]
    omega
  · rw [if_neg hopen, Rule.low_iff hpos]
    exact ⟨fun h hover => hopen (h.mp hover).2, fun h => iff_of_false h fun hex => hopen hex.2⟩

/-! ### A pair that sends nothing -/

/-- One delivery a minute, for any domains. -/
def minuteRule : Rule := ⟨"ANY".toList, "OTHER".toList, 1, 60, by decide, by decide⟩

def onePerMinute : DeliverQuantity := ⟨[minuteRule], by decide⟩

theorem checkDomain_a : checkDomain "a.cn".toList = true := by decide +kernel

theorem checkDomain_b : checkDomain "b.cn".toList = true := by decide +kernel

def pair : Report :=
  ⟨⟨[], "a.cn".toList, "b.cn".toList, List.forall_mem_nil _, checkDomain_a, checkDomain_b⟩, .s⟩

def minuteKey : Text := quantityKey pair.from_ minuteRule.row.db_rcpt minuteRule.row.db_seconds

/-- Two deliveries in half a minute. -/
def twoReports : List Counted :=
  [⟨pair, false, _, grouped_groupBy Rule.seconds, fun _ => (100, 100, 100)⟩,
    ⟨pair, false, _, grouped_groupBy Rule.seconds, fun _ => (130, 130, 130)⟩]

def afterTwo : Windows := Windows.init.report onePerMinute twoReports

/-- The line of the pair. -/
def stopLine : Line := ⟨"a.cn".toList, "other".toList, 1, "60".toList, "stop".toList⟩

theorem afterTwo_line : (afterTwo.bdb_status minuteKey).bind
    (bdbQueryStatus onePerMinute false ⟨[], [], []⟩ minuteKey) = some stopLine := by
  decide +kernel

theorem afterTwo_window : window minuteKey afterTwo.marks = some (100, 2) := by decide +kernel

/-- At once, the verdict is right. -/
theorem verdict_iff_minute : stopLine.quantity = minuteRule.quantity ∧
    (stopLine.status = "stop".toList ↔
      minuteRule.Exceeded 140 (window minuteKey afterTwo.marks)) := by
  refine (verdict_iff onePerMinute twoReports 140 pair minuteRule (by decide +kernel) false
    ⟨[], [], []⟩ stopLine afterTwo_line).mpr ⟨fun r hr => ?_, fun begun reports hw => ?_⟩
  · rw [List.mem_singleton.mp hr.1]
  · obtain ⟨rfl, rfl⟩ := Prod.mk.inj (Option.some.inj (afterTwo_window.symm.trans hw))
    rw [if_pos (by decide), Rule.low_iff (by decide)]
    exact .inr (by decide)

/-- A quarter of an hour later it still says `stop`. -/
theorem stops_for_ever :
    ¬ ∀ (content : DeliverQuantity) (history : List Counted) (t : Int) (p : Report),
    ∀ rule ∈ content.candidates p.from_ p.rcpt, ∀ (fails : Bool) (filter : Filter) (line : Line),
    let s := Windows.init.report content history
    let key := quantityKey p.from_ rule.row.db_rcpt rule.row.db_seconds
    (s.bdb_status key).bind (bdbQueryStatus content fails filter key) = some line →
      line.quantity = rule.quantity ∧
        (line.status = "stop".toList ↔ rule.Exceeded t (window key s.marks)) := by
  intro h
  have hverdict := (h onePerMinute twoReports 1000 pair minuteRule (by decide +kernel)
      false ⟨[], [], []⟩ stopLine afterTwo_line).2
  obtain ⟨w, hw, -, hopen⟩ := hverdict.mp rfl
  obtain rfl := Option.some.inj (afterTwo_window.symm.trans hw)
  exact absurd hopen (by decide)

end Edm.DeliverHelp

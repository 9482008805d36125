import Edm.Cachedb.ParseUrl
import Edm.Support.Base64
import Edm.Support.Holes
import Edm.Support.Query

/-!
# Cachedb — UrlEvent

The events that are sent to `ParseRequest::ParseMessage`, and the nodes that it pushes for them.
`pushedNode` is `parseUrl` up to `list_url.push_back`, so that it does not depend on the labels,
which an event of this form does not have (`parseUrl_pushed`).

The first `&e=` and `&ip=` are searched in the whole text, before the url is cut off it, and so is
`test2.php`.  `faithful_iff` says for which events this does no harm.
-/

namespace Edm.Cachedb.ParseUrl

open Support IpArea

/-! ### The node that is pushed -/

/-- `list_url.push_back(node)` for an opened mail. -/
def openNode (p : Parser) (test2 : Text) : Option (Option Node) :=
  (readParams p false test2).bind fun q =>
    if q.complete then (q.node (some 2) none).map some else some none

/-- The same for a click. -/
def clickNode (p : Parser) (req : Text) : Option (Option Node) :=
  (breakAt "&&".toList req).bind fun halves =>
  (readUrl (cstr halves.1)).bind fun url =>
  (readParams p true (cstr halves.2)).bind fun q =>
    if q.complete && url.isSome then (q.node (clickTag q.sbflag) url).map some else some none

/-- Behind the labels. -/
def eventNode (p : Parser) (req : Text) : Option (Option Node) :=
  match strstr "test2.php".toList (cstr req) with
  | some test2 => openNode p test2
  | none => clickNode p req

/-- From `isQQ` on. -/
def trackNode (p : Parser) (req email : Text) (ip : Option Text) : Option (Option Node) :=
  (ipError p email ip).bind fun other =>
    if other then some none
    else if '@' ∉ email then some none
    else (param "&la=".toList 128 (cstr req)).bind fun _ => eventNode p req

/-- What has been pushed when the labels are sent. -/
def pushedNode (p : Parser) (req : Text) : Option (Option Node) :=
  (param "&e=".toList 128 (cstr req)).bind fun email =>
  (param "&ip=".toList 128 (cstr req)).bind fun ip =>
  email.bind fun email =>
    if '@' ∈ email then trackNode p req email ip
    else (decodeEmail req email).bind fun r => trackNode p r.1 r.2 ip

variable {p : Parser} {labels ip : Option Text} {req s email : Text}

theorem openMail_pushed {d : Done} (h : openMail p labels s = some d) :
    openNode p s = some d.list_url := by
  obtain ⟨q, hq, h⟩ := Option.bind_eq_some_iff.mp h
  rw [openNode, hq, Option.bind_some]
  split at h
  next hcomplete =>
    obtain ⟨node, hnode, h⟩ := Option.bind_eq_some_iff.mp h
    obtain ⟨labels, -, h⟩ := Option.bind_eq_some_iff.mp h
    obtain ⟨sent, -, rfl⟩ := Option.map_eq_some_iff.mp h
    rw [if_pos hcomplete, hnode]
    rfl
  next hcomplete =>
    obtain rfl := Option.some.inj h
    rw [if_neg hcomplete]
    rfl

theorem clickLink_pushed {d : Done} (h : clickLink p labels req = some d) :
    clickNode p req = some d.list_url := by
  obtain ⟨halves, hhalves, h⟩ := Option.bind_eq_some_iff.mp h
  obtain ⟨url, hurl, h⟩ := Option.bind_eq_some_iff.mp h
  obtain ⟨q, hq, h⟩ := Option.bind_eq_some_iff.mp h
  rw [clickNode, hhalves, Option.bind_some, hurl, Option.bind_some, hq, Option.bind_some]
  split at h
  next hcomplete =>
    obtain ⟨node, hnode, h⟩ := Option.bind_eq_some_iff.mp h
    obtain ⟨labels, -, h⟩ := Option.bind_eq_some_iff.mp h
    obtain ⟨sent, -, rfl⟩ := Option.map_eq_some_iff.mp h
    rw [if_pos hcomplete, hnode]
    rfl
  next hcomplete =>
    obtain rfl := Option.some.inj h
    rw [if_neg hcomplete]
    rfl

theorem track_pushed {d : Option Done} (h : track p req email ip = some d) :
    trackNode p req email ip = some (d.bind Done.list_url) := by
  obtain ⟨other, hother, h⟩ := Option.bind_eq_some_iff.mp h
  rw [trackNode, hother, Option.bind_some]
  split at h
  next hrejected =>
    obtain rfl := Option.some.inj h
    exact if_pos hrejected
  next hrejected =>
    rw [if_neg hrejected]
    split at h
    next hat =>
      obtain rfl := Option.some.inj h
      exact if_pos hat
    next hat =>
      obtain ⟨labels, hlabels, h⟩ := Option.bind_eq_some_iff.mp h
      obtain ⟨done, hdone, rfl⟩ := Option.map_eq_some_iff.mp h
      rw [if_neg hat, hlabels, Option.bind_some, eventNode]
      cases htest : strstr "test2.php".toList (cstr req) with
      | some test2 =>
        rw [htest] at hdone
        exact openMail_pushed hdone
      | none =>
        rw [htest] at hdone
        exact clickLink_pushed hdone

/-- The node of an event that is read to its end. -/
theorem parseUrl_pushed {d : Option Done} (h : parseUrl p req = some d) :
    pushedNode p req = some (d.bind Done.list_url) := by
  obtain ⟨found, hfound, h₁⟩ := Option.bind_eq_some_iff.mp h
  obtain ⟨ip, hip, h₂⟩ := Option.bind_eq_some_iff.mp h₁
  obtain ⟨email, hemail, h₃⟩ := Option.bind_eq_some_iff.mp h₂
  rw [pushedNode, hfound, Option.bind_some, hip, Option.bind_some, hemail, Option.bind_some]
  split at h₃
  next hat => rw [if_pos hat, track_pushed h₃]
  next hat =>
    obtain ⟨r, hr, h₄⟩ := Option.bind_eq_some_iff.mp h₃
    rw [if_neg hat, hr, Option.bind_some, track_pushed h₄]

/-! ### Events -/

/-- What happened: the url, or what stands in front of `test2.php`. -/
inductive Kind where
  | opened (front : Text)
  | clicked (url : Text) (f : Option Text)

namespace Kind

/-- The url fits its array and has neither `&&` nor `test2.php`, and `f` fits its array. -/
def Documented : Kind → Prop
  | .opened front => nul ∉ front ∧ ¬ "test2.php".toList <:+: front
  | .clicked url f => nul ∉ url ∧ url.length < 256 ∧ ¬ "&&".toList <:+: url ∧
      ¬ "test2.php".toList <:+: url ∧ ∀ v ∈ f, '&' ∉ v ∧ nul ∉ v ∧ v.length < 2

/-- 2 for an opened mail, 1 for a click, 3 to 5 for the letters of `f`. -/
def tag : Kind → Option Nat
  | .opened _ => some 2
  | .clicked _ none => some 1
  | .clicked _ (some f) =>
      if f = ['u'] then some 3 else if f = ['c'] then some 4 else if f = ['f'] then some 5 else none

def flag : Kind → Option Text
  | .opened _ => none
  | .clicked _ f => f

def url : Kind → Option Text
  | .opened _ => none
  | .clicked url _ => some url

end Kind

/-- An event.  `e` is the mailbox, or its encoding. -/
structure Event where
  kind : Kind
  u : Text
  ta : Text
  te : Text
  c : Text
  e : Text
  ip : Text
  oid : Text
  lid : Text
  bid : Text
  mailbox : Text
  documented : kind.Documented
  clean : ∀ v ∈ [u, ta, te, c, e, ip, oid, lid, bid], '&' ∉ v ∧ nul ∉ v
  ids : ∀ v ∈ [ta, te, c], v ≠ [] ∧ (∀ d ∈ v, d.isDigit = true) ∧ v.length < 64
  fits : e.length < 128 ∧ ip.length < 64 ∧ ∀ v ∈ [oid, lid, bid], v.length < 2
  at_mailbox : '@' ∈ mailbox
  encoded : e = mailbox ∨ e = base64 mailbox

namespace Event

/-- The parameters behind `u`. -/
def params (e : Event) : List (Text × Text) :=
  [("&ta=".toList, e.ta), ("&te=".toList, e.te), ("&c=".toList, e.c), ("&e=".toList, e.e),
    ("&ip=".toList, e.ip)] ++ (e.kind.flag.map fun f => ("&f=".toList, f)).toList ++
    [("&oid=".toList, e.oid), ("&lid=".toList, e.lid), ("&bid=".toList, e.bid)]

/-- `u=B&ta=T&te=M&c=C&e=E&ip=I[&f=F]&oid=O&lid=L&bid=D`. -/
def query (e : Event) : Text := "u=".toList ++ e.u ++ queryText e.params

def text (e : Event) : Text :=
  match e.kind with
  | .opened front => front ++ ("test2.php".toList ++ ('?' :: e.query))
  | .clicked url _ => "url=".toList ++ url ++ ("&&".toList ++ e.query)

end Event

/-- An `unsigned int`. -/
def unsignedInt (z : Int) : Nat := (z % 2 ^ 32).toNat

/-- The IP filter does not reject the mailbox. -/
def Parser.Passes (p : Parser) (email ip : Text) : Prop :=
  ∀ known, p.known email = some known → cstr known = ip

/-- The first mailbox, address and labels of a text fit their arrays, and the filter, which is asked
about that mailbox and that address, does not reject them. -/
def Seen (p : Parser) (s : Text) : Prop :=
  Fits "&e=".toList 128 s ∧ Fits "&ip=".toList 128 s ∧ Fits "&la=".toList 128 s ∧
    ∃ email ip, value "&e=".toList s = some email ∧ value "&ip=".toList s = some ip ∧
      '@' ∈ email ∧ p.Passes email ip

namespace Event

/-- The node has what the event says. -/
structure Decoded (e : Event) (tag : Nat) (node : Node) : Prop where
  mail : node.mail = e.mailbox
  task_id : unsignedInt node.task_id = decimal e.ta
  template_id : unsignedInt node.template_id = decimal e.te
  corp_id : unsignedInt node.corp_id = decimal e.c
  url : ∀ url, e.kind.url = some url → node.url = some url
  tag : node.tag = some tag

/-- The node of the event is pushed, unless the filter rejects its mailbox; and for another `f` no
node is pushed that has no tag. -/
def Faithful (p : Parser) (e : Event) : Prop :=
  match e.kind.tag with
  | some tag => p.Passes e.mailbox e.ip →
      ∃ node, pushedNode p e.text = some (some node) ∧ e.Decoded tag node
  | none => ∀ node, pushedNode p e.text = some (some node) → node.tag ≠ none

/-- The parameters are read: those of an opened mail behind its `test2.php`, and those of a click if
there is none. -/
def Reached (p : Parser) (e : Event) : Prop :=
  Seen p e.text ∧ (p.vec_ip = [] ∨ FourFields e.ip) ∧
    (e.kind.url ≠ none → ¬ "test2.php".toList <:+: e.text)

/-- The mailbox is not encoded, each id is held by an `unsigned int`, and the url does not end in
`&`. -/
def Plain (e : Event) : Prop :=
  e.e = e.mailbox ∧ (∀ v ∈ [e.ta, e.te, e.c], decimal v < 2 ^ 32) ∧
    ∀ url, e.kind.url = some url → url.getLast? ≠ some '&'

/-- When an event is decoded faithfully: it is read and plain, or it has another `f` and is not
read. -/
def Decodable (p : Parser) (e : Event) : Prop :=
  match e.kind.tag with
  | some _ => p.Passes e.mailbox e.ip → e.Reached p ∧ e.Plain
  | none => ¬ e.Reached p

end Event

/-! ### Searches -/

theorem strstr_eq_breakAt (t : Text) : ∀ s : Text,
    strstr t s = (breakAt t s).map fun q => t ++ q.2
  | [] => by
    rw [strstr, breakAt]
    cases t <;> rfl
  | c :: s => by
    rw [strstr, breakAt]
    by_cases h : t <+: c :: s
    · rw [if_pos (List.isPrefixOf_iff_prefix.mpr h), if_pos h, Option.map_some]
      exact congrArg some (List.prefix_append_drop h)
    · rw [if_neg (mt List.isPrefixOf_iff_prefix.mp h), if_neg h, strstr_eq_breakAt t s,
        Option.map_map]
      rfl

theorem value_eq_breakAt (n s : Text) :
    value n s = (breakAt n s).map fun q => q.2.takeWhile (· != '&') := by
  rw [value, strstr_eq_breakAt, Option.map_map]
  refine congrArg (Option.map · _) (funext fun q => ?_)
  rw [Function.comp_apply, List.drop_left]

theorem value_query {n : Text} (hn : IsName n) {lead : Text} (hlead : '&' ∉ lead)
    {l : List (Text × Text)} (hl : ∀ q ∈ l, IsName q.1 ∧ '&' ∉ q.2) :
    value n (lead ++ queryText l) = l.lookup n := by
  rw [value_eq_breakAt]
  exact lookup_query hn hlead hl

theorem value_ne_none_iff {n s : Text} : value n s ≠ none ↔ n <:+: s := by
  rw [value_eq_breakAt, Ne, Option.map_eq_none_iff, breakAt_eq_none_iff, not_not]

theorem strstr_eq_none_iff {t s : Text} : strstr t s = none ↔ ¬ t <:+: s := by
  rw [strstr_eq_breakAt, Option.map_eq_none_iff, breakAt_eq_none_iff]

/-- Whatever is done with a text, it has been seen before. -/
theorem pushedNode_eq_some_iff (hclean : nul ∉ s) (hip : value "&ip=".toList s ≠ none)
    {node : Node} : pushedNode p s = some (some node) ↔
      Seen p s ∧ eventNode p s = some (some node) := by
  obtain ⟨v, hv⟩ := Option.ne_none_iff_exists'.mp hip
  have hcstr := cstr_self hclean
  constructor
  · intro h
    obtain ⟨found, hfound, h₁⟩ := Option.bind_eq_some_iff.mp h
    obtain ⟨ip, hip, h₂⟩ := Option.bind_eq_some_iff.mp h₁
    obtain ⟨email, hemail, h₃⟩ := Option.bind_eq_some_iff.mp h₂
    rw [hcstr, param_eq_some_iff] at hfound hip
    rw [hv] at hip
    split at h₃
    next hat =>
      obtain ⟨other, hother, h₄⟩ := Option.bind_eq_some_iff.mp h₃
      by_cases hrejected : other = true
      · rw [if_pos hrejected] at h₄
        cases h₄
      · rw [if_neg hrejected, if_neg (not_not_intro hat)] at h₄
        obtain ⟨labels, hlabels, h₅⟩ := Option.bind_eq_some_iff.mp h₄
        rw [hcstr, param_eq_some_iff] at hlabels
        refine ⟨⟨hfound.1, hip.1, hlabels.1, email, v, hfound.2.symm.trans hemail, hv, hat, ?_⟩, h₅⟩
        intro known hknown
        rw [ipError, hknown, Option.elim_some, hip.2, Option.map_some, Option.some.injEq] at hother
        by_contra hne
        exact hrejected (hother ▸ bne_iff_ne.mpr hne)
    next hat =>
      -- Only `===` is decoded, to nothing.
      obtain ⟨r, hr, h₄⟩ := Option.bind_eq_some_iff.mp h₃
      obtain ⟨p_email, hp, -⟩ := Option.bind_eq_some_iff.mp hr
      obtain ⟨rfl, -⟩ := base64Decode_eq_some_iff.mp hp
      obtain ⟨r', hr'⟩ := exists_decodeEmail s
      obtain rfl := Option.some.inj (hr.symm.trans hr')
      cases h₄
  · rintro ⟨⟨he, hip, hla, email, ip, hemail, hvalue, hat, hpasses⟩, hnode⟩
    have hfilter : ipError p email (some ip) = some false := by
      rw [ipError]
      cases hknown : p.known email with
      | none => rfl
      | some known =>
        rw [Option.elim_some, Option.map_some, hpasses known hknown, bne_self_eq_false]
    rw [pushedNode, hcstr, param_eq_some_iff.mpr ⟨he, hemail.symm⟩, Option.bind_some,
      param_eq_some_iff.mpr ⟨hip, hvalue.symm⟩, Option.bind_some, Option.bind_some, if_pos hat,
      trackNode, hfilter, Option.bind_some, if_neg Bool.false_ne_true,
      if_neg (not_not_intro hat), hcstr, param_eq_some_iff.mpr ⟨hla, rfl⟩, Option.bind_some, hnode]

/-! ### The parameters of an event -/

namespace Event

variable {e : Event}

theorem flag_clean (e : Event) : ∀ f ∈ e.kind.flag, '&' ∉ f ∧ nul ∉ f ∧ f.length < 2 := by
  have hdoc := e.documented
  cases hkind : e.kind with
  | opened front => simp [Kind.flag]
  | clicked url f =>
    rw [hkind] at hdoc
    exact hdoc.2.2.2.2

theorem isName_params (e : Event) : ∀ q ∈ e.params, IsName q.1 ∧ '&' ∉ q.2 := by
  have hclean := e.clean
  have hflag := e.flag_clean
  simp only [List.forall_mem_cons] at hclean
  obtain ⟨-, hta, hte, hc, he, hip, hoid, hlid, hbid, -⟩ := hclean
  intro q hq
  simp only [params, List.mem_append, List.mem_cons, List.not_mem_nil, or_false, Option.mem_toList,
    Option.map_eq_some_iff] at hq
  rcases hq with ((rfl | rfl | rfl | rfl | rfl) | ⟨f, hf, rfl⟩) | rfl | rfl | rfl
  · exact ⟨⟨['t', 'a'], rfl, by decide, by decide⟩, hta.1⟩
  · exact ⟨⟨['t', 'e'], rfl, by decide, by decide⟩, hte.1⟩
  · exact ⟨⟨['c'], rfl, by decide, by decide⟩, hc.1⟩
  · exact ⟨⟨['e'], rfl, by decide, by decide⟩, he.1⟩
  · exact ⟨⟨['i', 'p'], rfl, by decide, by decide⟩, hip.1⟩
  · exact ⟨⟨['f'], rfl, by decide, by decide⟩, (hflag f hf).1⟩
  · exact ⟨⟨['o', 'i', 'd'], rfl, by decide, by decide⟩, hoid.1⟩
  · exact ⟨⟨['l', 'i', 'd'], rfl, by decide, by decide⟩, hlid.1⟩
  · exact ⟨⟨['b', 'i', 'd'], rfl, by decide, by decide⟩, hbid.1⟩

/-- The parameters are found in a text. -/
structure FoundIn (e : Event) (s : Text) : Prop where
  ta : value "&ta=".toList s = some e.ta
  te : value "&te=".toList s = some e.te
  c : value "&c=".toList s = some e.c
  mail : value "&e=".toList s = some e.e
  ip : value "&ip=".toList s = some e.ip
  f : value "&f=".toList s = e.kind.flag
  oid : value "&oid=".toList s = some e.oid
  lid : value "&lid=".toList s = some e.lid
  bid : value "&bid=".toList s = some e.bid

/-- They are found behind a text without `&`, also behind `&u=`. -/
theorem foundIn {lead : Text} (hlead : '&' ∉ lead) {l : List (Text × Text)}
    (hl : l = e.params ∨ l = ("&u=".toList, e.u) :: e.params) :
    e.FoundIn (lead ++ queryText l) := by
  have hu : '&' ∉ e.u := (e.clean e.u List.mem_cons_self).1
  have hnames : ∀ q ∈ l, IsName q.1 ∧ '&' ∉ q.2 := by
    rcases hl with rfl | rfl
    · exact e.isName_params
    · exact List.forall_mem_cons.mpr ⟨⟨⟨['u'], rfl, by decide, by decide⟩, hu⟩, e.isName_params⟩
  have hval : ∀ n, IsName n → n ≠ "&u=".toList →
      value n (lead ++ queryText l) = e.params.lookup n := by
    intro n hn hne
    rw [value_query hn hlead hnames]
    rcases hl with rfl | rfl
    · rfl
    · rw [List.lookup_cons, beq_false_of_ne hne]
  constructor
  · exact hval _ ⟨['t', 'a'], rfl, by decide, by decide⟩ (by decide)
  · exact hval _ ⟨['t', 'e'], rfl, by decide, by decide⟩ (by decide)
  · exact hval _ ⟨['c'], rfl, by decide, by decide⟩ (by decide)
  · exact hval _ ⟨['e'], rfl, by decide, by decide⟩ (by decide)
  · exact hval _ ⟨['i', 'p'], rfl, by decide, by decide⟩ (by decide)
  · refine (hval _ ⟨['f'], rfl, by decide, by decide⟩ (by decide)).trans ?_
    rw [params]
    cases e.kind.flag <;> rfl
  · refine (hval _ ⟨['o', 'i', 'd'], rfl, by decide, by decide⟩ (by decide)).trans ?_
    rw [params]
    cases e.kind.flag <;> rfl
  · refine (hval _ ⟨['l', 'i', 'd'], rfl, by decide, by decide⟩ (by decide)).trans ?_
    rw [params]
    cases e.kind.flag <;> rfl
  · refine (hval _ ⟨['b', 'i', 'd'], rfl, by decide, by decide⟩ (by decide)).trans ?_
    rw [params]
    cases e.kind.flag <;> rfl

/-- The arrays behind the reading of an event. -/
def given (p : Parser) (click : Bool) (e : Event) : Params where
  email := some e.e
  corpid := some e.c
  templateid := some e.te
  taskid := some e.ta
  r_ip := some e.ip
  area := (findArea p (some e.ip)).getD []
  sbflag := if click then e.kind.flag else none
  osid := some e.oid
  slangid := some e.lid
  browserid := some e.bid

theorem FoundIn.paramsOf_eq (h : e.FoundIn s) (click : Bool) :
    paramsOf p click s = e.given p click := by
  rw [paramsOf, given, h.ta, h.te, h.c, h.mail, h.ip, h.f, h.oid, h.lid, h.bid]

theorem FoundIn.readable_iff (h : e.FoundIn s) (click : Bool) :
    Readable p click s ↔ p.vec_ip = [] ∨ FourFields e.ip := by
  obtain ⟨he, hip, hbytes⟩ := e.fits
  have hids := e.ids
  simp only [List.forall_mem_cons] at hids hbytes
  obtain ⟨⟨-, -, hta⟩, ⟨-, -, hte⟩, ⟨-, -, hc⟩, -⟩ := hids
  obtain ⟨hoid, hlid, hbid, -⟩ := hbytes
  have hfits : ∀ {n v : Text} {room : Nat}, value n s = some v → v.length < room →
      Fits n room s := by
    intro n v room hv hlen w hw
    obtain rfl := Option.some.inj (hv.symm.trans hw)
    exact hlen
  constructor
  · exact fun hread => hread.address e.ip h.ip
  · intro haddress
    refine ⟨?_, fun _ v hv => (e.flag_clean v (h.f.symm.trans hv)).2.2, fun ip hv => ?_⟩
    · simp only [fields, List.forall_mem_cons]
      exact ⟨hfits h.mail he, hfits h.c hc, hfits h.te hte, hfits h.ta hta, hfits h.ip hip,
        hfits h.oid hoid, hfits h.lid hlid, hfits h.bid hbid, fun _ hmem => absurd hmem
          List.not_mem_nil⟩
    · obtain rfl := Option.some.inj (h.ip.symm.trans hv)
      exact haddress

/-- The node of an event, with a tag and a url. -/
def node (p : Parser) (e : Event) (tag : Option Nat) (url : Option Text) : Node where
  mail := e.e
  area := (findArea p (some e.ip)).getD []
  url := url
  corp_id := atoi e.c
  template_id := atoi e.te
  task_id := atoi e.ta
  tag := tag
  osid := octet e.oid
  browserid := octet e.bid
  slangid := octet e.lid

theorem node_given {click : Bool} {tag : Option Nat} {url : Option Text}
    (hurl : ∀ u, url = some u → u.length < 256) :
    (e.given p click).node tag url = some (e.node p tag url) := by
  have harea : ((findArea p (some e.ip)).getD []).length ≤ 63 := length_findArea (some e.ip)
  rw [Params.node]
  simp only [given, Option.getD_some]
  rw [snprintf_self e.fits.1 (by have := e.fits.1; omega), Option.bind_some,
    snprintf_self (by omega) (by omega), Option.bind_some]
  cases url with
  | none => rfl
  | some u =>
    have hlen := hurl u rfl
    rw [Option.elim_some, snprintf_self hlen (by omega)]
    rfl

theorem complete_given (p : Parser) (click : Bool) (e : Event) :
    (e.given p click).complete = true := rfl

theorem openNode_eq_some_iff (h : e.FoundIn s) {node : Node} :
    openNode p s = some (some node) ↔
      (p.vec_ip = [] ∨ FourFields e.ip) ∧ node = e.node p (some 2) none := by
  rw [openNode, ← h.readable_iff false]
  constructor
  · intro hnode
    obtain ⟨q, hq, hnode⟩ := Option.bind_eq_some_iff.mp hnode
    obtain ⟨hread, rfl⟩ := readParams_eq_some_iff.mp hq
    rw [h.paramsOf_eq, if_pos (complete_given p false e), node_given (by simp), Option.map_some,
      Option.some.injEq, Option.some.injEq] at hnode
    exact ⟨hread, hnode.symm⟩
  · rintro ⟨hread, rfl⟩
    rw [readParams_eq_some_iff.mpr ⟨hread, rfl⟩, Option.bind_some, h.paramsOf_eq,
      if_pos (complete_given p false e), node_given (by simp)]
    rfl

/-- A click whose url is in front of the first `&&`, and whose parameters are behind it. -/
theorem clickNode_eq_some_iff {front url back : Text}
    (hbreak : breakAt "&&".toList s = some (front, back))
    (hfront : cstr front = "url=".toList ++ url) (hback : cstr back = back)
    (hurl : url.length < 256) (h : e.FoundIn back) {node : Node} :
    clickNode p s = some (some node) ↔ (p.vec_ip = [] ∨ FourFields e.ip) ∧
      node = e.node p (clickTag e.kind.flag) (some url) := by
  have hvalue : urlValue ("url=".toList ++ url) = some url := by
    rw [urlValue, strstr_eq_breakAt, breakAt_append_self (by decide)]
    rfl
  have hread : readUrl (cstr front) = some (some url) := by
    rw [hfront, readUrl_eq_some_iff, hvalue]
    exact ⟨fun v hv => Option.some.inj hv ▸ hurl, rfl⟩
  have hshort : ∀ u, some url = some u → u.length < 256 := fun u hu => Option.some.inj hu ▸ hurl
  have hall : ((e.given p true).complete && (some url).isSome) = true := rfl
  have hflag : (e.given p true).sbflag = e.kind.flag := rfl
  rw [clickNode, hbreak, Option.bind_some, hread, Option.bind_some, hback, ← h.readable_iff true]
  constructor
  · intro hnode
    obtain ⟨q, hq, hnode⟩ := Option.bind_eq_some_iff.mp hnode
    obtain ⟨hreadable, rfl⟩ := readParams_eq_some_iff.mp hq
    rw [h.paramsOf_eq, if_pos hall, hflag, node_given hshort, Option.map_some, Option.some.injEq,
      Option.some.injEq] at hnode
    exact ⟨hreadable, hnode.symm⟩
  · rintro ⟨hreadable, rfl⟩
    rw [readParams_eq_some_iff.mpr ⟨hreadable, rfl⟩, Option.bind_some, h.paramsOf_eq, if_pos hall,
      hflag, node_given hshort]
    rfl

/-! ### The text of an event -/

theorem nul_not_mem_query (e : Event) : nul ∉ e.query := by
  have hclean := e.clean
  have hflag := e.flag_clean
  simp only [List.forall_mem_cons] at hclean
  obtain ⟨hu, hta, hte, hc, he, hip, hoid, hlid, hbid, -⟩ := hclean
  have hparams : nul ∉ queryText e.params := by
    intro hmem
    obtain ⟨q, hq, hmem⟩ := List.mem_flatMap.mp hmem
    simp only [params, List.mem_append, List.mem_cons, List.not_mem_nil, or_false,
      Option.mem_toList, Option.map_eq_some_iff] at hq
    have hsplit : ∀ (n : Text) {v : Text}, nul ∉ n → nul ∉ v → nul ∉ n ++ v := fun _ _ hn hv h =>
      (List.mem_append.mp h).elim hn hv
    rcases hq with ((rfl | rfl | rfl | rfl | rfl) | ⟨f, hf, rfl⟩) | rfl | rfl | rfl
    · exact hsplit "&ta=".toList (by decide) hta.2 hmem
    · exact hsplit "&te=".toList (by decide) hte.2 hmem
    · exact hsplit "&c=".toList (by decide) hc.2 hmem
    · exact hsplit "&e=".toList (by decide) he.2 hmem
    · exact hsplit "&ip=".toList (by decide) hip.2 hmem
    · exact hsplit "&f=".toList (by decide) (hflag f hf).2.1 hmem
    · exact hsplit "&oid=".toList (by decide) hoid.2 hmem
    · exact hsplit "&lid=".toList (by decide) hlid.2 hmem
    · exact hsplit "&bid=".toList (by decide) hbid.2 hmem
  intro hmem
  rcases List.mem_append.mp hmem with hmem | hmem
  · rcases List.mem_append.mp hmem with hmem | hmem
    · exact absurd hmem (by decide)
    · exact hu.2 hmem
  · exact hparams hmem

theorem nul_not_mem_text (e : Event) : nul ∉ e.text := by
  have hquery := e.nul_not_mem_query
  have hdoc := e.documented
  rw [text]
  cases hkind : e.kind with
  | opened front =>
    rw [hkind] at hdoc
    intro hmem
    rcases List.mem_append.mp hmem with hmem | hmem
    · exact hdoc.1 hmem
    · rcases List.mem_append.mp hmem with hmem | hmem
      · exact absurd hmem (by decide)
      · rcases List.mem_cons.mp hmem with hmem | hmem
        · exact absurd hmem (by decide)
        · exact hquery hmem
  | clicked url f =>
    rw [hkind] at hdoc
    intro hmem
    rcases List.mem_append.mp hmem with hmem | hmem
    · rcases List.mem_append.mp hmem with hmem | hmem
      · exact absurd hmem (by decide)
      · exact hdoc.1 hmem
    · rcases List.mem_append.mp hmem with hmem | hmem
      · exact absurd hmem (by decide)
      · exact hquery hmem

/-- Behind `test2.php?`, or behind `&&`. -/
theorem foundIn_query (e : Event) : e.FoundIn e.query ∧
    e.FoundIn ("test2.php".toList ++ ('?' :: e.query)) ∧ e.FoundIn ('&' :: e.query) := by
  have hu : '&' ∉ e.u := (e.clean e.u List.mem_cons_self).1
  refine ⟨@foundIn e ("u=".toList ++ e.u) ?_ _ (.inl rfl),
    @foundIn e ("test2.php?u=".toList ++ e.u) ?_ _ (.inl rfl), ?_⟩
  · exact fun h => (List.mem_append.mp h).elim (by decide) hu
  · exact fun h => (List.mem_append.mp h).elim (by decide) hu
  · have hsame : '&' :: e.query = [] ++ queryText (("&u=".toList, e.u) :: e.params) := by
      rw [queryText_cons, query, List.nil_append, List.append_assoc]
      rfl
    rw [hsame]
    exact e.foundIn List.not_mem_nil (.inr rfl)

/-- The address is in the text. -/
theorem value_ip_text (e : Event) : value "&ip=".toList e.text ≠ none := by
  have hquery : "&ip=".toList <:+: e.query :=
    value_ne_none_iff.mp (by rw [e.foundIn_query.1.ip]; exact Option.some_ne_none _)
  refine value_ne_none_iff.mpr (hquery.trans ?_)
  rw [text]
  cases e.kind with
  | opened front =>
    exact (List.suffix_append_of_suffix (List.suffix_append_of_suffix
      (List.suffix_cons '?' e.query))).isInfix
  | clicked url f =>
    exact (List.suffix_append_of_suffix (List.suffix_append _ _)).isInfix

/-! ### When an event is decoded -/

theorem openNode_tag {node : Node} (h : openNode p s = some (some node)) : node.tag = some 2 := by
  obtain ⟨q, -, hnode⟩ := Option.bind_eq_some_iff.mp h
  split at hnode
  next =>
    obtain ⟨node', hnode', heq⟩ := Option.map_eq_some_iff.mp hnode
    obtain rfl := Option.some.inj heq
    obtain ⟨mail, -, h₁⟩ := Option.bind_eq_some_iff.mp hnode'
    obtain ⟨area, -, h₂⟩ := Option.bind_eq_some_iff.mp h₁
    obtain ⟨url, -, rfl⟩ := Option.map_eq_some_iff.mp h₂
    rfl
  next => cases hnode

/-- `test2.php` is found where it stands. -/
theorem eventNode_opened {front : Text} (hkind : e.kind = .opened front) {node : Node} :
    eventNode p e.text = some (some node) ↔
      (p.vec_ip = [] ∨ FourFields e.ip) ∧ node = e.node p (some 2) none := by
  have hdoc := e.documented
  rw [hkind] at hdoc
  have hbreak : breakAt "test2.php".toList (front ++ ("test2.php".toList ++ ('?' :: e.query)))
      = some (front, '?' :: e.query) := breakAt_unbordered (by decide) hdoc.2 _
  rw [eventNode, cstr_self e.nul_not_mem_text, text, hkind, strstr_eq_breakAt, hbreak]
  exact openNode_eq_some_iff e.foundIn_query.2.1

/-- The url in front of the first `&&`: a last `&` is not part of it. -/
def urlRead (url : Text) : Text := if url.getLast? = some '&' then url.dropLast else url

theorem eventNode_clicked {url : Text} {f : Option Text} (hkind : e.kind = .clicked url f)
    (hopen : ¬ "test2.php".toList <:+: e.text) {node : Node} :
    eventNode p e.text = some (some node) ↔ (p.vec_ip = [] ∨ FourFields e.ip) ∧
      node = e.node p (clickTag f) (some (urlRead url)) := by
  have hdoc := e.documented
  rw [hkind] at hdoc
  obtain ⟨hnul, hlen, hdouble, -, -⟩ := hdoc
  have hflag : e.kind.flag = f := by
    rw [hkind]
    rfl
  have htext : e.text = "url=".toList ++ url ++ ("&&".toList ++ e.query) := by rw [text, hkind]
  have hfront : ∀ u : Text, nul ∉ u → cstr ("url=".toList ++ u) = "url=".toList ++ u := fun u hu =>
    cstr_self fun h => (List.mem_append.mp h).elim (by decide) hu
  have hback : ∀ t : Text, t = e.query ∨ t = '&' :: e.query → cstr t = t := by
    rintro t (rfl | rfl)
    · exact cstr_self e.nul_not_mem_query
    · refine cstr_self fun h => ?_
      rcases List.mem_cons.mp h with h | h
      · exact absurd h (by decide)
      · exact e.nul_not_mem_query h
  -- The `&&` is not in the url, nor in what stands in front of it.
  have hlead : ¬ "&&".toList <:+: "url=".toList ++ url := by
    rw [← breakAt_eq_none_iff, show "&&".toList = ['&', '&'] from rfl,
      breakAt_clear (by decide), Option.map_eq_none_iff, breakAt_eq_none_iff]
    exact hdouble
  rw [eventNode, cstr_self e.nul_not_mem_text, strstr_eq_none_iff.mpr hopen, ← hflag]
  by_cases hlast : url.getLast? = some '&'
  · obtain ⟨url', rfl⟩ := List.getLast?_eq_some_iff.mp hlast
    have hbreak : breakAt "&&".toList e.text = some ("url=".toList ++ url', '&' :: e.query) := by
      have hsame : e.text = ("url=".toList ++ url') ++ ("&&".toList ++ ('&' :: e.query)) := by
        rw [htext]
        simp
      rw [hsame]
      refine breakAt_append fun h => hlead ?_
      rw [← List.append_assoc]
      exact h
    have hshort : url'.length < 256 := by
      rw [List.length_append] at hlen
      omega
    rw [urlRead, if_pos hlast, List.dropLast_concat]
    exact clickNode_eq_some_iff hbreak (hfront url' fun h => hnul (List.mem_append_left _ h))
      (hback _ (.inr rfl)) hshort e.foundIn_query.2.2
  · have hbreak : breakAt "&&".toList e.text = some ("url=".toList ++ url, e.query) := by
      rw [htext]
      refine breakAt_append fun h => ?_
      rcases List.infix_concat_iff.mp h with h | h
      · -- It would be the last letter of the url, and the `&` behind it.
        obtain ⟨t, ht⟩ := h
        have hinit : t ++ ['&'] = "url=".toList ++ url := by
          have hconcat : (t ++ ['&']) ++ ['&'] = ("url=".toList ++ url) ++ ['&'] := by
            rw [List.append_assoc]
            exact ht
          exact List.append_cancel_right hconcat
        have hend := congrArg List.getLast? hinit
        rw [List.getLast?_concat, List.getLast?_append] at hend
        cases hurl : url.getLast? with
        | none =>
          rw [hurl] at hend
          exact absurd hend (by decide)
        | some c =>
          rw [hurl, Option.some_or] at hend
          exact hlast (hurl.trans hend.symm)
      · exact hlead h
    rw [urlRead, if_neg hlast]
    exact clickNode_eq_some_iff hbreak (hfront url hnul) (hback _ (.inl rfl)) hlen e.foundIn_query.1

/-- A number is kept as long as an `unsigned int` holds it. -/
theorem unsignedInt_atoi {v : Text} (hne : v ≠ []) (hv : ∀ d ∈ v, d.isDigit = true) :
    unsignedInt (atoi v) = decimal v ↔ decimal v < 2 ^ 32 := by
  rw [atoi, cstr_digits hv, strtol_digits hne hv, Option.getD_some, unsignedInt, int32]
  have hmod : Int.bmod (min (2 ^ 63 - 1) (decimal v : Int)) (2 ^ 32) % 2 ^ 32
      = min (2 ^ 63 - 1) (decimal v : Int) % 2 ^ 32 := Int.bmod_emod
  rw [hmod]
  omega

/-- The tag of a click is that of its `f`, which has one letter at most. -/
theorem clickTag_eq {url : Text} {f : Option Text} (h : (Kind.clicked url f).Documented) :
    clickTag f = (Kind.clicked url f).tag := by
  obtain ⟨-, -, -, -, hf⟩ := h
  cases f with
  | none => rfl
  | some f =>
    obtain ⟨-, -, hlen⟩ := hf f rfl
    rcases f with _ | ⟨c, _ | ⟨d, f⟩⟩
    · rfl
    · simp only [clickTag, Kind.tag, List.head?_cons, Option.some.injEq, List.cons.injEq, and_true]
    · rw [List.length_cons, List.length_cons] at hlen
      omega

/-- A click is not given the tag of an opened mail. -/
theorem clicked_tag_ne {url : Text} {f : Option Text} : (Kind.clicked url f).tag ≠ some 2 := by
  cases f with
  | none =>
    change some 1 ≠ some 2
    decide
  | some f =>
    rw [Kind.tag]
    split
    · decide
    · split
      · decide
      · split <;> decide

theorem urlRead_eq_self_iff {url : Text} : urlRead url = url ↔ url.getLast? ≠ some '&' := by
  rw [urlRead]
  split
  next h =>
    refine iff_of_false (fun heq => ?_) (not_not_intro h)
    have hlen := congrArg List.length heq
    rw [List.length_dropLast] at hlen
    cases url with
    | nil => cases h
    | cons c url =>
      rw [List.length_cons] at hlen
      omega
  next h => exact iff_of_true rfl h

/-- What the node of an event has. -/
theorem decoded_iff {tag : Nat} {t : Option Nat} {url : Option Text} :
    e.Decoded tag (e.node p t url) ↔ e.e = e.mailbox ∧
      (∀ v ∈ [e.ta, e.te, e.c], decimal v < 2 ^ 32) ∧
      (∀ u, e.kind.url = some u → url = some u) ∧ t = some tag := by
  have hids := e.ids
  simp only [List.forall_mem_cons] at hids
  obtain ⟨⟨hta, hta', -⟩, ⟨hte, hte', -⟩, ⟨hc, hc', -⟩, -⟩ := hids
  simp only [List.forall_mem_cons]
  constructor
  · rintro ⟨hmail, htask, htemplate, hcorp, hurl, htag⟩
    exact ⟨hmail, ⟨(unsignedInt_atoi hta hta').mp htask, (unsignedInt_atoi hte hte').mp htemplate,
      (unsignedInt_atoi hc hc').mp hcorp, by simp⟩, hurl, htag⟩
  · rintro ⟨hmail, ⟨htask, htemplate, hcorp, -⟩, hurl, htag⟩
    exact ⟨hmail, (unsignedInt_atoi hta hta').mpr htask, (unsignedInt_atoi hte hte').mpr htemplate,
      (unsignedInt_atoi hc hc').mpr hcorp, hurl, htag⟩

/-- The node that is pushed for an event. -/
theorem pushedNode_text {node : Node} : pushedNode p e.text = some (some node) ↔
    Seen p e.text ∧ eventNode p e.text = some (some node) :=
  pushedNode_eq_some_iff e.nul_not_mem_text e.value_ip_text

/-- What is pushed for a click with a `test2.php` has the tag of an opened mail. -/
theorem tag_of_test2 (hopen : "test2.php".toList <:+: e.text) {node : Node}
    (h : pushedNode p e.text = some (some node)) : node.tag = some 2 := by
  obtain ⟨-, hnode⟩ := pushedNode_text.mp h
  rw [eventNode, cstr_self e.nul_not_mem_text] at hnode
  cases htest : strstr "test2.php".toList e.text with
  | none => exact absurd hopen (strstr_eq_none_iff.mp htest)
  | some test2 =>
    rw [htest] at hnode
    exact openNode_tag hnode

/-- An event is decoded faithfully exactly if it is read and plain, or has an `f` without a tag and
is not read. -/
theorem faithful_iff (p : Parser) (e : Event) : e.Faithful p ↔ e.Decodable p := by
  have hdoc := e.documented
  rw [Faithful, Decodable, Reached, Plain]
  cases hkind : e.kind with
  | opened front =>
    refine imp_congr_right fun _ => ?_
    constructor
    · rintro ⟨node, hpushed, hdecoded⟩
      obtain ⟨hseen, hnode⟩ := pushedNode_text.mp hpushed
      obtain ⟨haddress, rfl⟩ := (eventNode_opened hkind).mp hnode
      obtain ⟨hmail, hids, -, -⟩ := decoded_iff.mp hdecoded
      exact ⟨⟨hseen, haddress, fun h => absurd rfl h⟩, hmail, hids, fun u hu => by cases hu⟩
    · rintro ⟨⟨hseen, haddress, -⟩, hmail, hids, -⟩
      refine ⟨_, pushedNode_text.mpr ⟨hseen, (eventNode_opened hkind).mpr ⟨haddress, rfl⟩⟩,
        decoded_iff.mpr ⟨hmail, hids, fun u hu => ?_, rfl⟩⟩
      rw [hkind] at hu
      cases hu
  | clicked url f =>
    rw [hkind] at hdoc
    have htag := clickTag_eq hdoc
    have hurl : (Kind.clicked url f).url = some url := rfl
    rw [hurl]
    by_cases hopen : "test2.php".toList <:+: e.text
    · -- It is taken for an opened mail.
      cases hknown : (Kind.clicked url f).tag with
      | none =>
        refine iff_of_true (fun node hpushed => ?_) fun h => ?_
        · rw [tag_of_test2 hopen hpushed]
          exact Option.some_ne_none _
        · exact h.2.2 (Option.some_ne_none _) hopen
      | some tag =>
        refine imp_congr_right fun _ => iff_of_false ?_ fun h => ?_
        · rintro ⟨node, hpushed, hdecoded⟩
          have htwo := (tag_of_test2 hopen hpushed).symm.trans hdecoded.tag
          exact clicked_tag_ne (hknown.trans htwo.symm)
        · exact h.1.2.2 (Option.some_ne_none _) hopen
    · have hpushed : ∀ node, pushedNode p e.text = some (some node) ↔ Seen p e.text ∧
          (p.vec_ip = [] ∨ FourFields e.ip) ∧
            node = e.node p (clickTag f) (some (urlRead url)) := fun node => by
        rw [pushedNode_text, eventNode_clicked hkind hopen]
      simp only [hpushed, htag]
      cases hknown : (Kind.clicked url f).tag with
      | none =>
        constructor
        · rintro h ⟨hseen, haddress, -⟩
          exact h _ ⟨hseen, haddress, rfl⟩ rfl
        · rintro h node ⟨hseen, haddress, -⟩
          exact absurd ⟨hseen, haddress, fun _ => hopen⟩ h
      | some tag =>
        refine imp_congr_right fun _ => ?_
        have hsame : (∀ u, e.kind.url = some u → some (urlRead url) = some u)
            ↔ ∀ u, some url = some u → u.getLast? ≠ some '&' := by
          rw [hkind]
          simp only [Kind.url, Option.some.injEq, forall_eq']
          exact urlRead_eq_self_iff
        constructor
        · rintro ⟨node, ⟨hseen, haddress, rfl⟩, hdecoded⟩
          obtain ⟨hmail, hids, hread, -⟩ := decoded_iff.mp hdecoded
          exact ⟨⟨hseen, haddress, fun _ => hopen⟩, hmail, hids, hsame.mp hread⟩
        · rintro ⟨⟨hseen, haddress, -⟩, hmail, hids, hread⟩
          exact ⟨_, ⟨hseen, haddress, rfl⟩, decoded_iff.mpr ⟨hmail, hids, hsame.mpr hread, rfl⟩⟩

/-- A click with another `f`. -/
def otherClick : Event where
  kind := .clicked "http://a".toList (some ['x'])
  u := ['b']
  ta := ['1']
  te := ['2']
  c := ['3']
  e := "a@b.cc".toList
  ip := "1.2.3.4".toList
  oid := ['1']
  lid := ['2']
  bid := ['3']
  mailbox := "a@b.cc".toList
  documented := ⟨by decide, by decide, by decide, by decide, by decide⟩
  clean := by decide
  ids := by decide
  fits := by decide
  at_mailbox := by decide
  encoded := .inl rfl

/-- Its node is pushed without a tag. -/
theorem untagged_click : ¬ ∀ (p : Parser) (e : Event), e.Faithful p := by
  intro h
  have hnode : ∃ node, pushedNode ⟨[], [], by simp⟩ otherClick.text = some (some node) ∧
      node.tag = none := ⟨_, rfl, rfl⟩
  obtain ⟨node, hpushed, htag⟩ := hnode
  exact h ⟨[], [], by simp⟩ otherClick node hpushed htag

end Event

end Edm.Cachedb.ParseUrl

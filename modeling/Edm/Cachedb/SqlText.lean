import Edm.Support.Decimal
import Edm.Support.Lower
import Edm.Support.Quote
import Edm.Support.Split

/-!
# Cachedb — SqlText

The texts `cachedb` makes of an event: the keys of its cache, the statements that carry the
records of the cache to MySQL (`commit_cache_…_result`), and the line of the daily file
(`update_cache_stat_havior`).

The domain and the url stand between quotes in the key, and the key stands in the statement as it
is.  The mailbox goes through `snprintf` as a format on its way into the line, and the whole line
through `fprintf` as another.  `sqlText_iff` says for which events MySQL reads back what was meant.
-/

namespace Edm.Cachedb
open Support

/-! ### Events -/

/-- `struct url_node`.  The numbers are printed with `%d`. -/
structure UrlNode where
  tag : Nat
  mail : Text
  url : Text
  area : Text
  template_id : Int
  corp_id : Int
  task_id : Int
  hour : Int
  osid : Nat
  browserid : Nat
  slangid : Nat
  mailFits : mail.length ≤ 127
  urlFits : url.length ≤ 255
  idsFit : IsInt corp_id ∧ IsInt task_id ∧ IsInt template_id

/-- `sscanf(mail, "%[^@]@%[^@]", tmp, domain_tmp)`: the domain, if both parts fit 64 bytes. -/
def scanDomain (mail : Text) : Option Text :=
  if (cut '@' mail).1.isEmpty then some []
  else if 63 < (cut '@' mail).1.length ∨ 63 < (cut '@' (cut '@' mail).2).1.length then none
  else some (cut '@' (cut '@' mail).2).1

/-- The mailbox of an event: `DBUpdateUrl` writes it small when it was opened or clicked. -/
def UrlNode.box (un : UrlNode) : Text :=
  if un.tag = 1 ∨ un.tag = 2 then tolower un.mail else un.mail

/-- The domain `Domain_Update` takes. -/
def UrlNode.domain (un : UrlNode) : Option Text := (scanDomain un.box).map tolower

/-- The numbers of a key. -/
def UrlNode.ids (un : UrlNode) : Text :=
  showInt un.corp_id ++ ',' :: (showInt un.task_id ++ ',' :: showInt un.template_id)

/-- The key of a domain: `BDB_DOMAIN`, the numbers and the quoted domain. -/
def domainKey (un : UrlNode) (domain : Text) : Text :=
  ("3".toList ++ un.ids ++ ',' :: quoted domain).take 1022

/-- The key of a url. -/
def urlKey (un : UrlNode) : Text :=
  ("4".toList ++ un.ids ++ ',' :: quoted (tolower un.url)).take 1022

/-! ### Statements -/

/-- The name of a table, from the configuration. -/
structure TableName where
  text : Text
  simple : quote ∉ text ∧ '%' ∉ text

/-- `insert into … ON DUPLICATE KEY UPDATE …`, in a buffer that holds `size` characters: `column` is
the last column of the key, and each counter has its column and its value. -/
def upsert (size : Nat) (table : TableName) (column key : Text) (counters : List (Text × Int)) :
    Text :=
  ("insert into ".toList ++ table.text ++ " (corp_id,task_id,template_id,".toList ++ column
    ++ counters.flatMap (fun c => ',' :: c.1) ++ ")  values (".toList ++ key
    ++ counters.flatMap (fun c => ',' :: showInt c.2) ++ ")  ON DUPLICATE KEY UPDATE  ".toList
    ++ [','].intercalate
      (counters.map fun c => c.1 ++ " = ".toList ++ c.1 ++ " + ".toList ++ showInt c.2)).take size

/-- `domain_result_t`. -/
structure DomainResult where
  email_count : Int
  sent_count : Int
  reach_count : Int
  read_count : Int
  read_user_count : Int
  click_count : Int
  click_user_count : Int
  unsubscribe_count : Int
  forward_count : Int
  soft_bounce_count : Int
  hard_bounce_count : Int
  none_exist_count : Int
  none_exist_count1 : Int
  dns_fail_count : Int
  spam_garbage_count : Int

/-- The counters in the order of the statement. -/
def DomainResult.counters (rst : DomainResult) : List (Text × Int) :=
  [("email_count".toList, rst.email_count), ("sent_count".toList, rst.sent_count),
    ("reach_count".toList, rst.reach_count), ("read_count".toList, rst.read_count),
    ("read_user_count".toList, rst.read_user_count), ("click_count".toList, rst.click_count),
    ("click_user_count".toList, rst.click_user_count),
    ("unsubscribe_count".toList, rst.unsubscribe_count),
    ("forward_count".toList, rst.forward_count),
    ("soft_bounce_count".toList, rst.soft_bounce_count),
    ("hard_bounce_count".toList, rst.hard_bounce_count),
    ("none_exist_count".toList, rst.none_exist_count),
    ("none_exist_count1".toList, rst.none_exist_count1),
    ("dns_fail_count".toList, rst.dns_fail_count),
    ("spam_garbage_count".toList, rst.spam_garbage_count)]

/-- `commit_cache_domain_result`, on the key that the cache holds for `Domain_Update`; `none` when
the domain did not fit. -/
def commitDomain (table : TableName) (un : UrlNode) (rst : DomainResult) : Option Text :=
  un.domain.map fun domain =>
    upsert 2046 table "email_domain".toList ((domainKey un domain).drop 1) rst.counters

/-- `commit_cache_url_result`. -/
def commitUrl (table : TableName) (un : UrlNode) (click_count : Int) : Text :=
  upsert 510 table "url".toList ((urlKey un).drop 1) [("click_count".toList, click_count)]

/-- The columns of the table of the daily file. -/
def haviorColumns : Text :=
  " ( corp_id,task_id,template_id,email,havior,osid,browserid,slangid,open,click,".toList
    ++ "updatetime,url) ".toList

/-- What stands before the mailbox in a line of the daily file. -/
def haviorHead (table : TableName) (un : UrlNode) : Text :=
  "insert into ".toList ++ table.text ++ haviorColumns ++ " values (".toList ++ un.ids ++ [',']

/-- What stands between the mailbox and the url. -/
def haviorMiddle (un : UrlNode) (updatetime : Int) : Text :=
  [(if un.tag = 2 then 1 else 2), (un.osid : Int), (un.browserid : Int), (un.slangid : Int),
      (if un.tag = 2 then 1 else 0), (if un.tag = 2 then 0 else 1)].flatMap
    (fun z => ',' :: showInt z) ++ ",from_unixtime(".toList ++ showInt updatetime ++ "),".toList

/-- The url of the line: none when the mail was opened. -/
def UrlNode.haviorUrl (un : UrlNode) : Text := if un.tag = 2 then [] else un.url

/-- `update_cache_stat_havior`: what `fprintf` writes.  The mailbox was printed as a format
before. -/
def haviorLine (table : TableName) (un : UrlNode) (updatetime : Int) : Option Text :=
  (printf un.box).bind fun mail =>
    printf ((haviorHead table un ++ quoted (mail.take 126) ++ haviorMiddle un updatetime
      ++ quoted un.haviorUrl ++ ")\n".toList).take 1023)

/-! ### What is meant -/

/-- The statement for one value, which is the last column of the key. -/
def upsertMeant (table : TableName) (column ids value : Text) (counters : List (Text × Int)) :
    List (Piece Text Char) :=
  [.lit ("insert into ".toList ++ table.text ++ " (corp_id,task_id,template_id,".toList ++ column
      ++ counters.flatMap (fun c => ',' :: c.1) ++ ")  values (".toList ++ ids ++ [',']),
    .hole value,
    .lit (counters.flatMap (fun c => ',' :: showInt c.2)
      ++ ")  ON DUPLICATE KEY UPDATE  ".toList ++ [','].intercalate
        (counters.map fun c => c.1 ++ " = ".toList ++ c.1 ++ " + ".toList ++ showInt c.2))]

/-- The line of the daily file. -/
def haviorMeant (table : TableName) (un : UrlNode) (updatetime : Int) : List (Piece Text Char) :=
  [.lit (haviorHead table un), .hole un.box, .lit (haviorMiddle un updatetime),
    .hole un.haviorUrl, .lit ")\n".toList]

/-- A text MySQL reads back as it was meant. -/
def Faithful (text : Option Text) (ps : List (Piece Text Char)) : Prop :=
  text.bind (lex none) = some (ps.flatMap meant)

/-- The domain of the mailbox of an event. -/
def UrlNode.ownDomain (un : UrlNode) : Text :=
  if (cut '@' un.mail).1.isEmpty then [] else tolower (cut '@' (cut '@' un.mail).2).1

/-- Every text made of the event is read back: the statement for its domain, the line of the daily
file for one that was opened or clicked, and the statement for the url of one that was clicked. -/
structure ReadBack (byDomain byUrl havior : TableName) (un : UrlNode) (rst : DomainResult)
    (click_count updatetime : Int) : Prop where
  domain : Faithful (commitDomain byDomain un rst)
    (upsertMeant byDomain "email_domain".toList un.ids un.ownDomain rst.counters)
  line : un.tag = 1 ∨ un.tag = 2 →
    Faithful (haviorLine havior un updatetime) (haviorMeant havior un updatetime)
  url : un.tag = 1 → Faithful (some (commitUrl byUrl un click_count))
    (upsertMeant byUrl "url".toList un.ids (tolower un.url) [("click_count".toList, click_count)])

/-- The values keep clear of what MySQL and `printf` read otherwise, and everything fits. -/
structure Quotable (byDomain byUrl havior : TableName) (un : UrlNode) (rst : DomainResult)
    (click_count updatetime : Int) : Prop where
  domain : plain un.ownDomain = true
  domainFits : (cut '@' un.mail).1.isEmpty = false →
    (cut '@' un.mail).1.length ≤ 63 ∧ (cut '@' (cut '@' un.mail).2).1.length ≤ 63
  statementFits : (render quoted (upsertMeant byDomain "email_domain".toList un.ids un.ownDomain
    rst.counters)).length ≤ 2046
  line : un.tag = 1 ∨ un.tag = 2 → '%' ∉ un.box ∧ '%' ∉ un.haviorUrl ∧ un.mail.length ≤ 126 ∧
    plain un.box = true ∧ plain un.haviorUrl = true ∧
    (render quoted (haviorMeant havior un updatetime)).length ≤ 1023
  url : un.tag = 1 → plain (tolower un.url) = true ∧
    (render quoted (upsertMeant byUrl "url".toList un.ids (tolower un.url)
      [("click_count".toList, click_count)])).length ≤ 510

/-! ### Statements read back -/

theorem quote_not_mem_showInt (z : Int) : quote ∉ showInt z := not_mem_showInt rfl (by decide) z

theorem quote_not_mem_ids (un : UrlNode) : quote ∉ un.ids := by
  have hcomma : quote ≠ ',' := by decide
  simp [UrlNode.ids, quote_not_mem_showInt, hcomma]

theorem length_ids (un : UrlNode) : un.ids.length ≤ 35 := by
  have h₁ := length_showInt un.idsFit.1
  have h₂ := length_showInt un.idsFit.2.1
  have h₃ := length_showInt un.idsFit.2.2
  simp only [UrlNode.ids, List.length_append, List.length_cons]
  omega

theorem head_ne_of_not_mem {t : Text} (h : quote ∉ t) : t.head? ≠ some quote :=
  fun hs => h (List.mem_of_head? hs)

theorem spaced_upsertMeant (table : TableName) {column ids : Text} (value : Text)
    {counters : List (Text × Int)} (hcolumn : quote ∉ column) (hids : quote ∉ ids)
    (hcounters : ∀ c ∈ counters, quote ∉ c.1) :
    Spaced (upsertMeant table column ids value counters) := by
  have hcomma : quote ≠ ',' := by decide
  have hfixed : quote ∉ "insert into ".toList ∧ quote ∉ " (corp_id,task_id,template_id,".toList ∧
      quote ∉ ")  values (".toList ∧ quote ∉ ")  ON DUPLICATE KEY UPDATE  ".toList ∧
      quote ∉ " = ".toList ∧ quote ∉ " + ".toList := by decide
  obtain ⟨h₁, h₂, h₃, h₄, h₅, h₆⟩ := hfixed
  have hnames : quote ∉ counters.flatMap fun c => ',' :: c.1 := by
    intro h
    obtain ⟨c, hc, h⟩ := List.mem_flatMap.mp h
    exact (List.mem_cons.mp h).elim hcomma (hcounters c hc)
  have hvalues : quote ∉ counters.flatMap fun c => ',' :: showInt c.2 := by
    intro h
    obtain ⟨c, hc, h⟩ := List.mem_flatMap.mp h
    exact (List.mem_cons.mp h).elim hcomma (quote_not_mem_showInt c.2)
  have hupdates : quote ∉ [','].intercalate
      (counters.map fun c => c.1 ++ " = ".toList ++ c.1 ++ " + ".toList ++ showInt c.2) := by
    refine not_mem_intercalate hcomma fun t ht => ?_
    obtain ⟨c, hc, rfl⟩ := List.mem_map.mp ht
    simp only [List.mem_append, not_or]
    exact ⟨⟨⟨⟨hcounters c hc, h₅⟩, hcounters c hc⟩, h₆⟩, quote_not_mem_showInt c.2⟩
  have hlast : quote ∉ counters.flatMap (fun c => ',' :: showInt c.2)
      ++ ")  ON DUPLICATE KEY UPDATE  ".toList ++ [','].intercalate
        (counters.map fun c => c.1 ++ " = ".toList ++ c.1 ++ " + ".toList ++ showInt c.2) := by
    simp only [List.mem_append, not_or]
    exact ⟨⟨hvalues, h₄⟩, hupdates⟩
  refine ⟨?_, ?_, hlast, trivial⟩
  · simp only [List.mem_append, List.mem_singleton, not_or]
    exact ⟨⟨⟨⟨⟨⟨⟨h₁, table.simple.1⟩, h₂⟩, hcolumn⟩, hnames⟩, h₃⟩, hids⟩, hcomma⟩
  · rw [render, List.flatMap_cons, List.flatMap_nil, List.append_nil, Piece.text]
    exact head_ne_of_not_mem hlast

/-- A statement is read back if and only if its value is plain and it fits the buffer. -/
theorem faithful_upsert_iff (size : Nat) (table : TableName) {column ids : Text} (value : Text)
    {counters : List (Text × Int)} (hcolumn : quote ∉ column) (hids : quote ∉ ids)
    (hcounters : ∀ c ∈ counters, quote ∉ c.1) :
    Faithful (some (upsert size table column (ids ++ ',' :: quoted value) counters))
        (upsertMeant table column ids value counters) ↔
      (render quoted (upsertMeant table column ids value counters)).length ≤ size ∧
        plain value = true := by
  have htext : upsert size table column (ids ++ ',' :: quoted value) counters
      = (render quoted (upsertMeant table column ids value counters)).take size := by
    rw [upsert, upsertMeant, render]
    refine congrArg (List.take size) ?_
    simp only [List.flatMap_cons, List.flatMap_nil, Piece.text, List.append_assoc,
      List.cons_append, List.nil_append, List.append_nil]
  rw [Faithful, Option.bind_some, htext,
    lex_take_iff (spaced_upsertMeant table value hcolumn hids hcounters)]
  simp [upsertMeant]

/-! ### The domain and the url -/

theorem scanDomain_tolower (mail : Text) :
    scanDomain (tolower mail) = (scanDomain mail).map tolower := by
  have hcut := fun s : Text => cut_tolower (c := '@') (by decide) s
  simp only [scanDomain, hcut, tolower_isEmpty, length_tolower]
  split_ifs <;> rfl

/-- The domain, when it fits. -/
theorem UrlNode.domain_eq (un : UrlNode) :
    un.domain = (scanDomain un.mail).map tolower := by
  rw [domain, box]
  split
  · rw [scanDomain_tolower, Option.map_map]
    exact congrArg (Option.map · _) (funext tolower_tolower)
  · rfl

theorem key_drop (d : Char) {ids value : Text} (hids : ids.length ≤ 35)
    (hvalue : value.length ≤ 255) :
    (([d] ++ ids ++ ',' :: quoted value).take 1022).drop 1 = ids ++ ',' :: quoted value := by
  rw [List.take_of_length_le]
  · rfl
  · simp only [quoted, List.length_append, List.length_cons, List.length_nil]
    omega

theorem quote_not_mem_counters (rst : DomainResult) : ∀ c ∈ rst.counters, quote ∉ c.1 := by
  simp only [DomainResult.counters, List.forall_mem_cons]
  decide

theorem length_scanDomain {mail domain : Text} (h : scanDomain mail = some domain) :
    domain.length ≤ 63 := by
  rw [scanDomain] at h
  split_ifs at h
  · obtain rfl := Option.some.inj h
    exact Nat.zero_le _
  · obtain rfl := Option.some.inj h
    omega

/-- The statement for the domain. -/
theorem commitDomain_iff (table : TableName) (un : UrlNode) (rst : DomainResult) :
    Faithful (commitDomain table un rst)
        (upsertMeant table "email_domain".toList un.ids un.ownDomain rst.counters) ↔
      plain un.ownDomain = true ∧
      ((cut '@' un.mail).1.isEmpty = false →
        (cut '@' un.mail).1.length ≤ 63 ∧ (cut '@' (cut '@' un.mail).2).1.length ≤ 63) ∧
      (render quoted (upsertMeant table "email_domain".toList un.ids un.ownDomain
        rst.counters)).length ≤ 2046 := by
  rw [commitDomain, un.domain_eq]
  by_cases hfit : (cut '@' un.mail).1.isEmpty = false →
      (cut '@' un.mail).1.length ≤ 63 ∧ (cut '@' (cut '@' un.mail).2).1.length ≤ 63
  · have hown : (scanDomain un.mail).map tolower = some un.ownDomain := by
      rw [scanDomain, UrlNode.ownDomain]
      by_cases he : (cut '@' un.mail).1.isEmpty = true
      · rw [if_pos he, if_pos he]
        rfl
      · have hlen := hfit (Bool.eq_false_iff.mpr he)
        rw [if_neg he, if_neg he, if_neg (by omega)]
        rfl
    have hlen : un.ownDomain.length ≤ 255 := by
      obtain ⟨domain, hscan, hd⟩ := Option.map_eq_some_iff.mp hown
      have h63 := length_scanDomain hscan
      rw [← hd, length_tolower]
      omega
    have hkey : (domainKey un un.ownDomain).drop 1 = un.ids ++ ',' :: quoted un.ownDomain :=
      key_drop '3' (length_ids un) hlen
    rw [hown, Option.map_some, hkey, faithful_upsert_iff 2046 table un.ownDomain (by decide)
      (quote_not_mem_ids un) (quote_not_mem_counters rst)]
    exact ⟨fun h => ⟨h.2, hfit, h.1⟩, fun h => ⟨h.2.2, h.1⟩⟩
  · refine iff_of_false (fun h => ?_) (fun h => hfit h.2.1)
    have hnone : scanDomain un.mail = none := by
      obtain ⟨he, hlen⟩ := Classical.not_imp.mp hfit
      rw [scanDomain, if_neg (Bool.eq_false_iff.mp he), if_pos (by omega)]
    rw [hnone] at h
    cases h

/-- The statement for the url. -/
theorem commitUrl_iff (table : TableName) (un : UrlNode) (click_count : Int) :
    Faithful (some (commitUrl table un click_count))
        (upsertMeant table "url".toList un.ids (tolower un.url)
          [("click_count".toList, click_count)]) ↔
      plain (tolower un.url) = true ∧
      (render quoted (upsertMeant table "url".toList un.ids (tolower un.url)
        [("click_count".toList, click_count)])).length ≤ 510 := by
  have hkey : (urlKey un).drop 1 = un.ids ++ ',' :: quoted (tolower un.url) :=
    key_drop '4' (length_ids un) (by rw [length_tolower]; exact un.urlFits)
  rw [commitUrl, hkey, faithful_upsert_iff 510 table (tolower un.url) (by decide)
    (quote_not_mem_ids un) (by simp only [List.forall_mem_cons]; decide)]
  exact and_comm

/-! ### The daily file -/

/-- The fixed parts of the line. -/
theorem not_mem_haviorFixed {c : Char} (hc : c = quote ∨ c = '%') :
    c ∉ "insert into ".toList ∧ c ∉ haviorColumns ∧ c ∉ " values (".toList ∧
      c ∉ ",from_unixtime(".toList ∧ c ∉ "),".toList := by
  rcases hc with rfl | rfl <;> decide +kernel

/-- The parts of the line that do not come from the mailbox or the url. -/
theorem not_mem_havior (table : TableName) (un : UrlNode) (updatetime : Int) {c : Char}
    (hc : c = quote ∨ c = '%') : c ∉ haviorHead table un ∧ c ∉ haviorMiddle un updatetime := by
  obtain ⟨hinsert, hcolumns, hvalues, htime, hclose⟩ := not_mem_haviorFixed hc
  have hdigit : c.isDigit = false := by rcases hc with rfl | rfl <;> rfl
  have hminus : c ≠ '-' := by rcases hc with rfl | rfl <;> decide
  have hcomma : c ≠ ',' := by rcases hc with rfl | rfl <;> decide
  have hint : ∀ z, c ∉ showInt z := not_mem_showInt hdigit hminus
  have htable : c ∉ table.text := by
    rcases hc with rfl | rfl
    · exact table.simple.1
    · exact table.simple.2
  have hids : c ∉ un.ids := by
    simp only [UrlNode.ids, List.mem_append, List.mem_cons, not_or]
    exact ⟨hint _, hcomma, hint _, hcomma, hint _⟩
  have hlist : c ∉ [(if un.tag = 2 then 1 else 2), (un.osid : Int), (un.browserid : Int),
      (un.slangid : Int), (if un.tag = 2 then 1 else 0), (if un.tag = 2 then 0 else 1)].flatMap
        (fun z => ',' :: showInt z) := by
    intro h
    obtain ⟨z, -, h⟩ := List.mem_flatMap.mp h
    exact (List.mem_cons.mp h).elim hcomma (hint z)
  refine ⟨List.not_mem_append (List.not_mem_append (List.not_mem_append (List.not_mem_append
      (List.not_mem_append hinsert htable) hcolumns) hvalues) hids)
      (List.mem_singleton.not.mpr hcomma), ?_⟩
  exact List.not_mem_append (List.not_mem_append (List.not_mem_append hlist htime) (hint _)) hclose

theorem spaced_haviorMeant (table : TableName) (un : UrlNode) (updatetime : Int) :
    Spaced (haviorMeant table un updatetime) := by
  obtain ⟨hhead, hmiddle⟩ := not_mem_havior table un updatetime (.inl rfl)
  refine ⟨hhead, ?_, hmiddle, ?_, by decide, trivial⟩
  · have hne : ∃ t, haviorMiddle un updatetime = ',' :: t := ⟨_, rfl⟩
    obtain ⟨t, ht⟩ := hne
    rw [ht, render, List.flatMap_cons, Piece.text, List.cons_append, List.head?_cons]
    decide
  · decide

/-- The line of the daily file. -/
theorem haviorLine_iff (table : TableName) (un : UrlNode) (updatetime : Int) :
    Faithful (haviorLine table un updatetime) (haviorMeant table un updatetime) ↔
      '%' ∉ un.box ∧ '%' ∉ un.haviorUrl ∧ un.mail.length ≤ 126 ∧ plain un.box = true ∧
      plain un.haviorUrl = true ∧
      (render quoted (haviorMeant table un updatetime)).length ≤ 1023 := by
  have hspaced := spaced_haviorMeant table un updatetime
  have hbox : un.box.length = un.mail.length := by
    rw [UrlNode.box]
    split
    · exact length_tolower _
    · rfl
  have hwhole : render quoted (haviorMeant table un updatetime) = haviorHead table un
      ++ quoted un.box ++ haviorMiddle un updatetime ++ quoted un.haviorUrl ++ ")\n".toList := by
    simp only [haviorMeant, render, List.flatMap_cons, List.flatMap_nil, Piece.text,
      List.append_assoc, List.append_nil]
  have hplain : (∀ v, Piece.hole v ∈ haviorMeant table un updatetime → plain v = true) ↔
      plain un.box = true ∧ plain un.haviorUrl = true := by
    simp [haviorMeant]
  constructor
  · intro h
    rw [Faithful, Option.bind_eq_some_iff] at h
    obtain ⟨out, hline, hlex⟩ := h
    obtain ⟨mail, hmail, hout⟩ := Option.bind_eq_some_iff.mp hline
    -- Nothing shorter than the whole line reads as much, so nothing was lost on the way.
    have hsize := length_of_lex hlex
    rw [sizes_meant, Option.elim_none, Nat.add_zero, hwhole] at hsize
    have hprint := length_printf hout
    have hmailLength := length_printf hmail
    simp only [quoted, List.length_append, List.length_cons, List.length_nil, List.length_take]
      at hsize hprint
    have hbox' := not_mem_of_printf hmail (by omega)
    rw [printf_self hbox'] at hmail
    obtain rfl := Option.some.inj hmail
    have htake : un.box.take 126 = un.box := List.take_of_length_le (by omega)
    rw [htake, ← hwhole] at hout
    have hfits : (render quoted (haviorMeant table un updatetime)).length ≤ 1023 := by
      rw [hwhole]
      simp only [quoted, List.length_append, List.length_cons, List.length_nil]
      omega
    rw [List.take_of_length_le hfits] at hout
    have hpercent : '%' ∉ render quoted (haviorMeant table un updatetime) := by
      refine not_mem_of_printf hout ?_
      rw [hwhole]
      simp only [quoted, List.length_append, List.length_cons, List.length_nil]
      omega
    rw [printf_self hpercent] at hout
    obtain rfl := Option.some.inj hout
    obtain ⟨hpm, hpu⟩ := hplain.mp ((lex_render_iff hspaced).mp hlex)
    refine ⟨hbox', fun hc => hpercent ?_, by omega, hpm, hpu, hfits⟩
    rw [hwhole, quoted, quoted]
    simp only [List.mem_append, List.mem_cons]
    exact .inl (.inr (.inr (.inl hc)))
  · rintro ⟨hbox', hurl, hlen, hpm, hpu, hfits⟩
    obtain ⟨hhead, hmiddle⟩ := not_mem_havior table un updatetime (.inr rfl)
    have hpercent : '%' ∉ render quoted (haviorMeant table un updatetime) := by
      have hquote : '%' ≠ quote := by decide
      have hend : '%' ∉ ")\n".toList := by decide
      rw [hwhole, quoted, quoted]
      simp only [List.mem_append, List.mem_cons, List.mem_nil_iff, or_false, not_or]
      exact ⟨⟨⟨⟨hhead, hquote, hbox', hquote⟩, hmiddle⟩, hquote, hurl, hquote⟩, hend⟩
    have htake : un.box.take 126 = un.box := List.take_of_length_le (by omega)
    rw [Faithful, haviorLine, printf_self hbox', Option.bind_some, htake, ← hwhole,
      List.take_of_length_le hfits, printf_self hpercent, Option.bind_some]
    exact (lex_render_iff hspaced).mpr (hplain.mpr ⟨hpm, hpu⟩)

/-! ### Texts that fit -/

theorem isSome_haviorLine (havior : TableName) {un : UrlNode} (updatetime : Int)
    (hbox : '%' ∉ un.box) (hurl : '%' ∉ un.haviorUrl) :
    (haviorLine havior un updatetime).isSome = true := by
  obtain ⟨hhead, hmiddle⟩ := not_mem_havior havior un updatetime (.inr rfl)
  have hquoted : ∀ v : Text, '%' ∉ v → '%' ∉ quoted v := by
    intro v hv
    have hquote : '%' ≠ quote := by decide
    rw [quoted]
    simp [hquote, hv]
  have hline : '%' ∉ haviorHead havior un ++ quoted (un.box.take 126) ++ haviorMiddle un updatetime
      ++ quoted un.haviorUrl ++ ")\n".toList :=
    List.not_mem_append (List.not_mem_append (List.not_mem_append (List.not_mem_append hhead
      (hquoted _ fun h => hbox (List.mem_of_mem_take h))) hmiddle) (hquoted _ hurl)) (by decide)
  rw [haviorLine, printf_self hbox, Option.bind_some,
    printf_self fun h => hline (List.mem_of_mem_take h)]
  rfl

/-- Both parts of the mailbox fit `Domain_Update`. -/
def UrlNode.DomainFits (un : UrlNode) : Prop :=
  (cut '@' un.mail).1.isEmpty = false →
    (cut '@' un.mail).1.length ≤ 63 ∧ (cut '@' (cut '@' un.mail).2).1.length ≤ 63

theorem isSome_domain {un : UrlNode} (h : un.DomainFits) : un.domain.isSome = true := by
  rw [un.domain_eq, Option.isSome_map, scanDomain]
  split
  next => rfl
  next hne =>
    have hlength := h (Bool.eq_false_iff.mpr hne)
    rw [if_neg (by omega)]
    rfl

/-! ### The event -/

/-- MySQL reads back what is meant by the texts of an event exactly when its values keep clear of
quotes, backslashes and percent signs as said in `Quotable`, and the texts fit. -/
theorem sqlText_iff (byDomain byUrl havior : TableName) (un : UrlNode) (rst : DomainResult)
    (click_count updatetime : Int) :
    ReadBack byDomain byUrl havior un rst click_count updatetime ↔
      Quotable byDomain byUrl havior un rst click_count updatetime := by
  constructor
  · intro h
    obtain ⟨h₁, h₂, h₃⟩ := (commitDomain_iff byDomain un rst).mp h.domain
    exact ⟨h₁, h₂, h₃, fun ht => (haviorLine_iff havior un updatetime).mp (h.line ht),
      fun ht => (commitUrl_iff byUrl un click_count).mp (h.url ht)⟩
  · intro h
    exact ⟨(commitDomain_iff byDomain un rst).mpr ⟨h.domain, h.domainFits, h.statementFits⟩,
      fun ht => (haviorLine_iff havior un updatetime).mpr (h.line ht),
      fun ht => (commitUrl_iff byUrl un click_count).mpr (h.url ht)⟩

/-- A quote in the domain ends the literal. -/
theorem quote_in_domain : ¬ ∀ (byDomain byUrl havior : TableName) (un : UrlNode)
    (rst : DomainResult) (click_count updatetime : Int),
    ReadBack byDomain byUrl havior un rst click_count updatetime := by
  intro h
  have hplain := ((commitDomain_iff ⟨"stat_domain".toList, by decide⟩
    { tag := 3, mail := "a@b'c.com".toList, url := [], area := [], template_id := 1, corp_id := 1,
      task_id := 1, hour := 0, osid := 0, browserid := 0, slangid := 0, mailFits := by decide,
      urlFits := by decide, idsFit := by decide }
    ⟨0, 0, 0, 0, 0, 0, 0, 1, 0, 0, 0, 0, 0, 0, 0⟩).mp
    (h _ ⟨[], by decide⟩ ⟨[], by decide⟩ _ _ 0 0).domain).1
  exact absurd hplain (by decide)

end Edm.Cachedb

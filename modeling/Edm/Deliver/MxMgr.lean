import Mathlib.Data.List.Induction
import Edm.Support.Run
import Edm.Support.StdMap
import Edm.Support.Lower

/-!
# Deliver — MxMgr

Where mail for a domain is sent (`MxMgr`).  `getMXRecord` asks the `transport` entries of the
configuration, then the answers of the DNS it keeps, and then the DNS.  Both tables are asked with
`getFromCache`, which takes the entry of the word `other` where the domain has none.

* The keys of the tables are compared with `strCasecmp`; `key` is what the comparison sees of a text
  (`strCasecmp_eq_zero_iff`).
* A `Call` brings what its clock readings, its random numbers and the DNS give.  `Answer`s are what
  the DNS has given so far.
* `Owned`: what a call for a domain may return.  `owned_iff_safe`: every call of a history returns
  that if and only if no call finds the answer kept for `other` in the place of its own.
-/

namespace Edm.Deliver.MxMgr
open Support

/-! ### Names of domains -/

/-- `StringFunc::strCasecmp`. -/
def strCasecmp : Text → Text → Int
  | [], b => -(b.length : Int)
  | a, [] => a.length
  | x :: a, y :: b =>
      if x.toLower = y.toLower then
        -- a NUL in both ends the comparison
        if x = nul then 0 else strCasecmp a b
      else (x.toLower.toNat : Int) - y.toLower.toNat

/-- The letters small, and nothing behind a NUL. -/
def key : Text → Text
  | [] => []
  | c :: s => c.toLower :: if c = nul then [] else key s

theorem strCasecmp_eq_zero_iff (a b : Text) : strCasecmp a b = 0 ↔ key a = key b := by
  fun_induction strCasecmp a b with
  | case1 b => cases b <;> simp [key]; omega
  | case2 a ha =>
      cases a with
      | nil => exact absurd rfl ha
      | cons x a => simp [key]; omega
  | case3 a y b hxy =>
      have hy : y = nul := (toLower_eq_iff (by decide)).mp hxy.symm
      simp [key, hy]
  | case4 x a y b hxy hx ih =>
      have hy : y ≠ nul := by
        rintro rfl
        exact hx ((toLower_eq_iff (by decide)).mp hxy)
      simp [key, hx, hy, hxy, ih]
  | case5 x a y b hxy =>
      have hne : x.toLower.toNat ≠ y.toLower.toNat := fun h => hxy (Char.toNat_inj.mp h)
      simp [key, hxy]
      omega

/-! ### The tables -/

/-- `MXRecord`. -/
structure MXRecord where
  m_strIP : Text
  m_nPort : BitVec 16 := 25
  deriving DecidableEq

/-- `MXRecordCacheNode`. -/
structure MXRecordCacheNode where
  m_tExpiredTime : Int := -1
  m_listMXRecord : List MXRecord := []

/-- `typeMxRecordMap`; the order of the keys is never used. -/
abbrev MxRecordMap := StdMap Text MXRecordCacheNode

/-- `find` and `push_back`: no address is in the list twice. -/
def addRecord (l : List MXRecord) (r : MXRecord) : List MXRecord := if r ∈ l then l else l ++ [r]

/-- `StringFunc::convertHexNumberToDec`. -/
def convertHexNumberToDec (c : Char) : Int :=
  if c.isDigit then c.toNat - 48
  else if c.isAlphanum then (Char.ofNat (c.toNat + 10)).toUpper.toNat - 65
  else -1

/-- The loop of `StringFunc::stringToInt<rfc_uint_16>`, in base 10. -/
def stringToIntLoop (nResult : BitVec 16) : Text → BitVec 16
  | [] => nResult
  | c :: s =>
      let nDecNumber := convertHexNumberToDec c
      if nDecNumber < 0 ∨ 10 ≤ nDecNumber then nResult
      else stringToIntLoop (nResult * 10 + BitVec.ofInt 16 nDecNumber) s

/-- `StringFunc::stringToInt<rfc_uint_16>`, in base 10. -/
def stringToInt (s : Text) : BitVec 16 :=
  match cstr s with
  | '-' :: t => -stringToIntLoop 0 t
  | '+' :: t => stringToIntLoop 0 t
  | t => stringToIntLoop 0 t

/-- The address in a value of the configuration: `ip` or `ip:port`. -/
def parseRecord (value : Text) : MXRecord :=
  if ':' ∈ value then
    ⟨value.takeWhile (· != ':'), stringToInt (value.drop ((value.takeWhile (· != ':')).length + 1))⟩
  else ⟨value, 25⟩

/-- `m_mapTransport[it->first]` gets one more address. -/
def addTransport (m : MxRecordMap) (pair : Text × Text) : MxRecordMap :=
  m.upsert (key pair.1) fun node =>
    let node := node.getD {}
    { node with m_listMXRecord := addRecord node.m_listMXRecord (parseRecord pair.2) }

/-- The table `onInit` makes of the names and values under `/iedm/transport`. -/
def onInit (listTransPort : List (Text × Text)) : MxRecordMap :=
  listTransPort.foldl addTransport .empty

/-! ### Asking a table -/

/-- What a look-up returns: `DNS_LOOKUP_OK` with an address, `DNS_LOOKUP_NOTFOUND`,
`DNS_LOOKUP_RETRY`. -/
inductive Lookup where
  | ok (r : MXRecord)
  | notfound
  | retry
  deriving DecidableEq

/-- `a % b`; a division by zero ends the program. -/
def mod (a b : Nat) : Option Nat := if b = 0 then none else some (a % b)

/-- The entry has expired at `now`. -/
def MXRecordCacheNode.expired (node : MXRecordCacheNode) (now : Nat) : Prop :=
  0 < node.m_tExpiredTime ∧ node.m_tExpiredTime < now

instance (node : MXRecordCacheNode) (now : Nat) : Decidable (node.expired now) :=
  inferInstanceAs (Decidable (_ ∧ _))

/-- The word that stands for all domains. -/
def other : Text := "other".toList

/-- `getFromCache`, at the time `now`; `rand` is what `threadSafeRand` gives, and `none` is a
crash. -/
def getFromCache (mapCache : MxRecordMap) (strDomain : Text) (nIndex now rand : Nat) :
    Option Lookup :=
  match (mapCache.find (key strDomain)).or (mapCache.find (key other)) with
  | none => some .retry
  | some aCacheNode =>
      if aCacheNode.expired now then some .retry
      else
        let nTotal := aCacheNode.m_listMXRecord.length
        if nTotal < 1 then some .notfound
        else (mod nIndex nTotal).bind fun nIndex =>
          if nTotal ≤ nIndex then some .notfound
          else (if 1 < nTotal then mod rand nTotal else some nIndex).bind fun nIndex =>
            aCacheNode.m_listMXRecord[nIndex]?.map .ok

/-! ### The calls -/

/-- `DNSLookupRetCode`, as the resolver returns it. -/
inductive DNSLookupRetCode where
  | ok | fail | retry | notfound
  deriving DecidableEq

/-- What the DNS gives for a domain: `queryMXIPV4Record`, and `queryIPV4ARecord`, which is asked
when the first one finds nothing. -/
structure Outcome where
  nRetCode : DNSLookupRetCode
  mx : List Text
  a : List Text

/-- `queryDNSRecord`: the addresses, all with port 25. -/
def Outcome.records (o : Outcome) : List MXRecord :=
  ((if o.nRetCode = .notfound then o.mx ++ o.a else o.mx).map fun ip => ⟨ip, 25⟩).foldl addRecord []

/-- A call of `getMXRecord`: the seconds that pass before the clock is read for the first and the
second look-up and when the DNS has answered, and what `threadSafeRand` and the DNS give. -/
structure Call where
  strDomain : Text
  nIndex : Nat
  first : Nat
  second : Nat
  answered : Nat
  rands : Nat × Nat × Nat
  outcome : Outcome

/-- An answer of the DNS: for which domain, when, and the addresses. -/
structure Answer where
  domain : Text
  time : Nat
  records : List MXRecord

/-- The tables and the clock, and the answers the DNS has given so far. -/
structure State where
  clock : Nat
  m_mapDNSRecord : MxRecordMap
  answers : List Answer

/-- The manager with the table `transport` and `m_tDNSDefaultTTL`. -/
structure Config where
  transport : List (Text × Text)
  ttl : Int

variable (conf : Config)

/-- What is kept when the DNS has answered. -/
def State.answered (s : State) (c : Call) : State where
  clock := s.clock + c.answered
  m_mapDNSRecord := s.m_mapDNSRecord.set (key c.strDomain)
    ⟨(s.clock + c.answered : Nat) + conf.ttl, c.outcome.records⟩
  answers := ⟨c.strDomain, s.clock + c.answered, c.outcome.records⟩ :: s.answers

/-- What `getMXRecord` returns when it has asked the DNS. -/
def Call.asked (c : Call) : Option Lookup :=
  let list := c.outcome.records
  if list.length < 1 then some .notfound
  else (mod c.nIndex list.length).bind fun nIndex =>
    if list.length ≤ nIndex then some .notfound else list[nIndex]?.map .ok

def getMXRecord (s : State) (c : Call) : Option Lookup × State :=
  if c.strDomain = [] then (some .notfound, s)
  else
    let now := s.clock + c.first
    match getFromCache (onInit conf.transport) c.strDomain c.nIndex now c.rands.1 with
    | some .retry =>
        match getFromCache s.m_mapDNSRecord c.strDomain c.nIndex now c.rands.2.1 with
        | some .retry =>
            let s := { s with clock := now + c.second }
            match getFromCache s.m_mapDNSRecord c.strDomain c.nIndex s.clock c.rands.2.2 with
            | some .retry => (c.asked, s.answered conf c)
            | r => (r, s)
        | r => (r, { s with clock := now })
    | r => (r, { s with clock := now })

/-- The manager after a call. -/
def step (s : State) (c : Call) : State := (getMXRecord conf s c).2

/-- The manager before the first call. -/
def State.start (clock : Nat) : State := ⟨clock, .empty, []⟩

/-! ### What a table gives -/

/-- `r` is an address in the entry that `transport` has for `domain`. -/
def Config.Routes (domain : Text) (r : MXRecord) : Prop :=
  ∃ pair ∈ conf.transport, strCasecmp pair.1 domain = 0 ∧ parseRecord pair.2 = r

/-- `transport` has an entry for `domain`. -/
def Config.HasEntry (domain : Text) : Prop := ∃ pair ∈ conf.transport, strCasecmp pair.1 domain = 0

instance (domain : Text) (r : MXRecord) : Decidable (conf.Routes domain r) :=
  inferInstanceAs (Decidable (∃ pair ∈ conf.transport, _ ∧ _))

instance (domain : Text) : Decidable (conf.HasEntry domain) :=
  inferInstanceAs (Decidable (∃ pair ∈ conf.transport, _))

theorem mem_addRecord {l : List MXRecord} {r r' : MXRecord} :
    r' ∈ addRecord l r ↔ r' ∈ l ∨ r' = r := by
  rw [addRecord]
  split
  next h =>
    refine ⟨Or.inl, fun hr => hr.elim id ?_⟩
    rintro rfl
    exact h
  next => rw [List.mem_append, List.mem_singleton]

/-- The entry of a key: it never expires, and has the addresses of the values under that key. -/
def Entry (pairs : List (Text × Text)) (k : Text) : Option MXRecordCacheNode → Prop
  | none => ∀ pair ∈ pairs, key pair.1 ≠ k
  | some node => node.m_tExpiredTime = -1 ∧ (∃ r, r ∈ node.m_listMXRecord) ∧
      ∀ r, r ∈ node.m_listMXRecord ↔ ∃ pair ∈ pairs, key pair.1 = k ∧ parseRecord pair.2 = r

theorem Entry.getD {pairs : List (Text × Text)} {k : Text} {o : Option MXRecordCacheNode}
    (h : Entry pairs k o) : (o.getD {}).m_tExpiredTime = -1 ∧ ∀ r, r ∈ (o.getD {}).m_listMXRecord ↔
      ∃ pair ∈ pairs, key pair.1 = k ∧ parseRecord pair.2 = r := by
  cases o with
  | none =>
      refine ⟨rfl, fun r => iff_of_false List.not_mem_nil ?_⟩
      rintro ⟨pair, hp, hk, -⟩
      exact h pair hp hk
  | some node => exact ⟨h.1, h.2.2⟩

theorem exists_mem_concat {α : Type*} {l : List α} {a : α} {p : α → Prop} :
    (∃ x ∈ l ++ [a], p x) ↔ (∃ x ∈ l, p x) ∨ p a := by
  simp only [List.mem_append, List.mem_singleton, or_and_right, exists_or, exists_eq_left]

theorem onInit_entry (pairs : List (Text × Text)) (k : Text) :
    Entry pairs k ((onInit pairs).find k) := by
  induction pairs using List.reverseRecOn with
  | nil =>
      intro pair h
      cases h
  | append_singleton pairs pair ih =>
      rw [onInit, List.foldl_append, List.foldl_cons, List.foldl_nil, addTransport,
        StdMap.find_upsert]
      split
      next hk =>
        subst hk
        obtain ⟨hexp, hmem⟩ := ih.getD
        refine ⟨hexp, ⟨_, mem_addRecord.mpr (Or.inr rfl)⟩, fun r => mem_addRecord.trans ?_⟩
        rw [exists_mem_concat]
        exact or_congr (hmem r) ⟨fun h => ⟨rfl, h.symm⟩, fun h => h.2.symm⟩
      next hk =>
        change Entry (pairs ++ [pair]) k ((onInit pairs).find k)
        cases ho : (onInit pairs).find k with
        | none =>
            rw [ho] at ih
            intro p hp
            rcases List.mem_append.mp hp with hp | hp
            · exact ih p hp
            · rw [List.mem_singleton.mp hp]
              exact Ne.symm hk
        | some node =>
            rw [ho] at ih
            refine ⟨ih.1, ih.2.1, fun r => (ih.2.2 r).trans ?_⟩
            rw [exists_mem_concat, or_iff_left fun h => hk h.1.symm]

/-- A table is asked: there is no entry, or the entry has expired, or it has no address, or an
address of it is returned. -/
inductive Asked (mapCache : MxRecordMap) (strDomain : Text) (now : Nat) : Option Lookup → Prop where
  | absent (h : mapCache.find (key strDomain) = none) (h' : mapCache.find (key other) = none) :
      Asked mapCache strDomain now (some .retry)
  | expired {node : MXRecordCacheNode}
      (h : (mapCache.find (key strDomain)).or (mapCache.find (key other)) = some node)
      (he : node.expired now) : Asked mapCache strDomain now (some .retry)
  | empty {node : MXRecordCacheNode}
      (h : (mapCache.find (key strDomain)).or (mapCache.find (key other)) = some node)
      (he : ¬ node.expired now) (hl : node.m_listMXRecord = []) :
      Asked mapCache strDomain now (some .notfound)
  | found {node : MXRecordCacheNode} {r : MXRecord}
      (h : (mapCache.find (key strDomain)).or (mapCache.find (key other)) = some node)
      (he : ¬ node.expired now) (hr : r ∈ node.m_listMXRecord) :
      Asked mapCache strDomain now (some (.ok r))

theorem mod_of_pos {a b : Nat} (h : 0 < b) : ∃ c < b, mod a b = some c :=
  ⟨a % b, Nat.mod_lt a h, if_neg h.ne'⟩

/-- Nothing is divided by zero, and no index lies outside the list. -/
theorem getFromCache_asked (mapCache : MxRecordMap) (strDomain : Text) (nIndex now rand : Nat) :
    Asked mapCache strDomain now (getFromCache mapCache strDomain nIndex now rand) := by
  rw [getFromCache]
  split
  next h =>
    rw [Option.or_eq_none_iff] at h
    exact .absent h.1 h.2
  next node h =>
    split
    next he => exact .expired h he
    next he =>
      dsimp only
      split
      next hl => exact .empty h he (List.length_eq_zero_iff.mp (Nat.lt_one_iff.mp hl))
      next hl =>
        have hpos : 0 < node.m_listMXRecord.length := Nat.not_lt.mp hl
        obtain ⟨i, hi, hmod⟩ := mod_of_pos (a := nIndex) hpos
        obtain ⟨j, hj, hmod'⟩ := mod_of_pos (a := rand) hpos
        have hdraw : ∃ k < node.m_listMXRecord.length,
            (if 1 < node.m_listMXRecord.length then mod rand node.m_listMXRecord.length
              else some i) = some k := by
          split
          · exact ⟨j, hj, hmod'⟩
          · exact ⟨i, hi, rfl⟩
        obtain ⟨k, hk, hdraw⟩ := hdraw
        rw [hmod, Option.bind_some, if_neg (Nat.not_le.mpr hi), hdraw, Option.bind_some,
          List.getElem?_eq_getElem hk]
        exact .found h he (List.getElem_mem hk)

/-! ### What a call may return -/

/-- What a call for a domain may return when `answers` have been given and the clock shows `now`:
an address from the entry of the domain; or from the entry of the word `other`, if the domain has
none; or, if there is no entry, from an answer for the domain itself that is at most `ttl` seconds
old.  When no address is found, the DNS has answered so for the domain itself. -/
def Owned (now : Nat) (answers : List Answer) (strDomain : Text) : Option Lookup → Prop
  | some (.ok r) => conf.Routes strDomain r ∨
      (¬ conf.HasEntry strDomain ∧ conf.Routes other r) ∨
      (¬ conf.HasEntry strDomain ∧ ¬ conf.HasEntry other ∧ ∃ a ∈ answers,
        strCasecmp a.domain strDomain = 0 ∧ (now : Int) ≤ a.time + conf.ttl ∧ r ∈ a.records)
  | some .notfound => strDomain = [] ∨ ∃ a ∈ answers,
      strCasecmp a.domain strDomain = 0 ∧ a.records = []
  | some .retry => False
  | none => False

/-- The call returns what it may. -/
def Returns (s : State) (c : Call) : Prop :=
  Owned conf (step conf s c).clock (step conf s c).answers c.strDomain (getMXRecord conf s c).1

/-- What the DNS is asked for may be returned: it has no address, or it is not too old at once. -/
def Fresh (c : Call) : Prop := c.outcome.records = [] ∨ 0 ≤ conf.ttl

instance (c : Call) : Decidable (Fresh conf c) := inferInstanceAs (Decidable (_ ∨ _))

/-- The call does not find an answer for `other` in the place of one for its own domain.  (With a
time to live below zero it must not find an answer that never expires, nor a new one.) -/
def Safe (s : State) (c : Call) : Prop :=
  c.strDomain = [] ∨ conf.HasEntry c.strDomain ∨ conf.HasEntry other ∨
  match s.m_mapDNSRecord.find (key c.strDomain) with
  | some node =>
      node.expired (s.clock + c.first) ∧ Fresh conf c ∨
      ¬ node.expired (s.clock + c.first) ∧ (node.m_listMXRecord = [] ∨ 0 < node.m_tExpiredTime)
  | none =>
      (∀ node ∈ s.m_mapDNSRecord.find (key other), node.expired (s.clock + c.first)) ∧ Fresh conf c

instance (s : State) (c : Call) : Decidable (Safe conf s c) :=
  @instDecidableOr _ _ _ (@instDecidableOr _ _ _ (@instDecidableOr _ _ _
    (match s.m_mapDNSRecord.find (key c.strDomain) with
      | some _ => inferInstanceAs (Decidable (_ ∨ _))
      | none => inferInstanceAs (Decidable (_ ∧ _)))))

/-- What the cache keeps is the last answer for its key. -/
structure Kept (s : State) : Prop where
  clock_pos : 0 < s.clock
  past : ∀ a ∈ s.answers, a.time ≤ s.clock
  kept : ∀ {k node}, s.m_mapDNSRecord.find k = some node → ∃ a ∈ s.answers,
    key a.domain = k ∧ node.m_tExpiredTime = a.time + conf.ttl ∧ node.m_listMXRecord = a.records
  known : ∀ a ∈ s.answers, ∃ node, s.m_mapDNSRecord.find (key a.domain) = some node ∧
    a.time + conf.ttl ≤ node.m_tExpiredTime

theorem kept_start {clock : Nat} (h : 0 < clock) : Kept conf (State.start clock) := by
  refine ⟨h, ?_, ?_, ?_⟩
  · intro a ha
    cases ha
  · intro k node hk
    cases hk
  · intro a ha
    cases ha

variable {conf}

/-- Time goes on. -/
theorem Kept.wait {s : State} (h : Kept conf s) (n : Nat) :
    Kept conf { s with clock := s.clock + n } :=
  ⟨Nat.add_pos_left h.clock_pos n, fun a ha => (h.past a ha).trans (Nat.le_add_right _ _), h.kept,
    h.known⟩

theorem Kept.answered {s : State} (h : Kept conf s) (c : Call) : Kept conf (s.answered conf c) := by
  have hw := h.wait c.answered
  have hpast : ∀ a ∈ (s.answered conf c).answers, a.time ≤ s.clock + c.answered := by
    intro a ha
    rcases List.mem_cons.mp ha with rfl | ha
    · exact Nat.le_refl _
    · exact hw.past a ha
  refine ⟨hw.clock_pos, hpast, ?_, ?_⟩
  · intro k node hk
    rw [State.answered, StdMap.find_set] at hk
    split at hk
    next heq =>
      cases hk
      exact ⟨_, List.mem_cons_self, heq.symm, rfl, rfl⟩
    next =>
      obtain ⟨a, ha, hrest⟩ := h.kept hk
      exact ⟨a, List.mem_cons_of_mem _ ha, hrest⟩
  · intro a ha
    have hle := hpast a ha
    rw [State.answered, StdMap.find_set]
    split
    next => exact ⟨_, rfl, by dsimp only; omega⟩
    next hne =>
      rcases List.mem_cons.mp ha with rfl | ha
      · exact absurd rfl hne
      · exact h.known a ha

/-- Each call keeps it. -/
theorem Kept.step {s : State} (h : Kept conf s) (c : Call) : Kept conf (step conf s c) := by
  rw [MxMgr.step, getMXRecord]
  split
  · exact h
  · dsimp only
    split
    · split
      · split
        · exact ((h.wait c.first).wait c.second).answered c
        · exact (h.wait c.first).wait c.second
      · exact h.wait c.first
    · exact h.wait c.first

theorem transport_find {strDomain : Text} {node : MXRecordCacheNode}
    (h : (onInit conf.transport).find (key strDomain) = some node) :
    node.m_tExpiredTime = -1 ∧ (∃ r, r ∈ node.m_listMXRecord) ∧ conf.HasEntry strDomain ∧
      ∀ r ∈ node.m_listMXRecord, conf.Routes strDomain r := by
  have hentry := onInit_entry conf.transport (key strDomain)
  rw [h] at hentry
  obtain ⟨hexp, ⟨r, hr⟩, hmem⟩ := hentry
  obtain ⟨pair, hp, hk, -⟩ := (hmem r).mp hr
  refine ⟨hexp, ⟨r, hr⟩, ⟨pair, hp, (strCasecmp_eq_zero_iff _ _).mpr hk⟩, fun r hr => ?_⟩
  obtain ⟨pair, hp, hk, hr⟩ := (hmem r).mp hr
  exact ⟨pair, hp, (strCasecmp_eq_zero_iff _ _).mpr hk, hr⟩

theorem hasEntry_iff (strDomain : Text) :
    conf.HasEntry strDomain ↔ (onInit conf.transport).find (key strDomain) ≠ none := by
  constructor
  · rintro ⟨pair, hp, hk⟩ hnone
    have hentry := onInit_entry conf.transport (key strDomain)
    rw [hnone] at hentry
    exact hentry pair hp ((strCasecmp_eq_zero_iff _ _).mp hk)
  · intro h
    obtain ⟨node, hnode⟩ := Option.ne_none_iff_exists'.mp h
    exact (transport_find hnode).2.2.1

/-- The table of the configuration: it has nothing for the domain, or an address that may be
returned. -/
theorem transport_asked {strDomain : Text} {now : Nat} {result : Option Lookup}
    (h : Asked (onInit conf.transport) strDomain now result) :
    result = some .retry ∧ ¬ conf.HasEntry strDomain ∧ ¬ conf.HasEntry other ∨
    (∃ r, result = some (.ok r) ∧ (conf.Routes strDomain r ∨
      ¬ conf.HasEntry strDomain ∧ conf.Routes other r)) ∧
      (conf.HasEntry strDomain ∨ conf.HasEntry other) := by
  have hsome : ∀ node, ((onInit conf.transport).find (key strDomain)).or
      ((onInit conf.transport).find (key other)) = some node → ¬ node.expired now ∧
      (∃ r, r ∈ node.m_listMXRecord) ∧ (conf.HasEntry strDomain ∨ conf.HasEntry other) ∧
      ∀ r ∈ node.m_listMXRecord, conf.Routes strDomain r ∨
        ¬ conf.HasEntry strDomain ∧ conf.Routes other r := by
    intro node hnode
    rcases Option.or_eq_some_iff.mp hnode with hd | ⟨hd, ho⟩
    · obtain ⟨hexp, hr, hentry, hroutes⟩ := transport_find hd
      refine ⟨fun he => ?_, hr, Or.inl hentry, fun r hr => Or.inl (hroutes r hr)⟩
      rw [MXRecordCacheNode.expired, hexp] at he
      omega
    · obtain ⟨hexp, hr, hentry, hroutes⟩ := transport_find ho
      refine ⟨fun he => ?_, hr, Or.inr hentry, fun r hr => Or.inr ⟨?_, hroutes r hr⟩⟩
      · rw [MXRecordCacheNode.expired, hexp] at he
        omega
      · exact fun h => (hasEntry_iff _).mp h hd
  cases h with
  | absent hd ho =>
      exact Or.inl ⟨rfl, fun h => (hasEntry_iff _).mp h hd, fun h => (hasEntry_iff _).mp h ho⟩
  | expired hnode he => exact absurd he (hsome _ hnode).1
  | empty hnode _ hl =>
      obtain ⟨r, hr⟩ := (hsome _ hnode).2.1
      rw [hl] at hr
      cases hr
  | found hnode _ hr =>
      obtain ⟨-, -, hentry, hroutes⟩ := hsome _ hnode
      exact Or.inr ⟨⟨_, rfl, hroutes _ hr⟩, hentry⟩

/-- Without an entry only the answers for the domain itself count. -/
theorem owned_ok_iff {strDomain : Text} (hno : ¬ conf.HasEntry strDomain)
    (hno' : ¬ conf.HasEntry other) {now : Nat} {answers : List Answer} {r : MXRecord} :
    Owned conf now answers strDomain (some (.ok r)) ↔ ∃ a ∈ answers,
      key a.domain = key strDomain ∧ (now : Int) ≤ a.time + conf.ttl ∧ r ∈ a.records := by
  simp only [Owned, strCasecmp_eq_zero_iff]
  constructor
  · rintro (⟨pair, hp, hk, -⟩ | ⟨-, pair, hp, hk, -⟩ | ⟨-, -, h⟩)
    · exact absurd ⟨pair, hp, hk⟩ hno
    · exact absurd ⟨pair, hp, hk⟩ hno'
    · exact h
  · intro h
    exact Or.inr (Or.inr ⟨hno, hno', h⟩)

theorem owned_notfound_iff {strDomain : Text} (hd : strDomain ≠ []) {now : Nat}
    {answers : List Answer} : Owned conf now answers strDomain (some .notfound) ↔
      ∃ a ∈ answers, key a.domain = key strDomain ∧ a.records = [] := by
  simp only [Owned, strCasecmp_eq_zero_iff, hd, false_or]

/-- A call that asks the DNS. -/
theorem answered_owned_iff {s : State} (h : Kept conf s) {c : Call} (hd : c.strDomain ≠ [])
    (hno : ¬ conf.HasEntry c.strDomain) (hno' : ¬ conf.HasEntry other) :
    Owned conf (s.answered conf c).clock (s.answered conf c).answers c.strDomain c.asked ↔
      Fresh conf c := by
  have hnew :
      ⟨c.strDomain, s.clock + c.answered, c.outcome.records⟩ ∈ (s.answered conf c).answers :=
    List.mem_cons_self
  rw [Call.asked]
  split
  next hl =>
    have hnil := List.length_eq_zero_iff.mp (Nat.lt_one_iff.mp hl)
    rw [owned_notfound_iff hd]
    exact iff_of_true ⟨_, hnew, rfl, hnil⟩ (Or.inl hnil)
  next hl =>
    have hpos : 0 < c.outcome.records.length := Nat.not_lt.mp hl
    obtain ⟨i, hi, hmod⟩ := mod_of_pos (a := c.nIndex) hpos
    rw [hmod, Option.bind_some, if_neg (Nat.not_le.mpr hi), List.getElem?_eq_getElem hi,
      Option.map_some, owned_ok_iff hno hno']
    constructor
    · rintro ⟨a, ha, -, hle, -⟩
      have := (h.answered c).past a ha
      exact Or.inr (by omega)
    · rintro (hnil | hpos)
      · rw [hnil] at hi
        exact absurd hi (Nat.not_lt_zero _)
      · refine ⟨_, hnew, rfl, ?_, List.getElem_mem hi⟩
        have hclock : (s.answered conf c).clock = s.clock + c.answered := rfl
        dsimp only
        omega

theorem MXRecordCacheNode.expired.mono {node : MXRecordCacheNode} {now now' : Nat}
    (h : node.expired now) (hle : now ≤ now') : node.expired now' :=
  ⟨h.1, h.2.trans_le (by exact_mod_cast hle)⟩

/-- An entry that has expired stays so, and one that is not there does not come. -/
theorem getFromCache_retry {mapCache : MxRecordMap} {strDomain : Text} {now now' : Nat}
    (hle : now ≤ now') (nIndex rand : Nat) (h : Asked mapCache strDomain now (some .retry)) :
    getFromCache mapCache strDomain nIndex now' rand = some .retry := by
  rw [getFromCache]
  cases h with
  | absent hd ho => rw [hd, ho]; rfl
  | expired hnode he =>
      rw [hnode]
      exact if_pos (he.mono hle)

/-- A call for a domain without an entry: the DNS is asked, or an answer that is kept is found. -/
theorem getMXRecord_cases (s : State) {c : Call} (hd : c.strDomain ≠ [])
    (hno : ¬ conf.HasEntry c.strDomain) (hno' : ¬ conf.HasEntry other) :
    Asked s.m_mapDNSRecord c.strDomain (s.clock + c.first) (some .retry) ∧ getMXRecord conf s c =
      (c.asked, { s with clock := s.clock + c.first + c.second }.answered conf c) ∨
    ∃ result ≠ some .retry, Asked s.m_mapDNSRecord c.strDomain (s.clock + c.first) result ∧
      getMXRecord conf s c = (result, { s with clock := s.clock + c.first }) := by
  have ht : getFromCache (onInit conf.transport) c.strDomain c.nIndex (s.clock + c.first) c.rands.1
      = some .retry := by
    have ht := transport_asked (getFromCache_asked (onInit conf.transport) c.strDomain c.nIndex
      (s.clock + c.first) c.rands.1)
    rcases ht with ⟨ht, -⟩ | ⟨-, hentry⟩
    · exact ht
    · exact absurd hentry (not_or.mpr ⟨hno, hno'⟩)
  have hasked := getFromCache_asked s.m_mapDNSRecord c.strDomain c.nIndex (s.clock + c.first)
    c.rands.2.1
  by_cases hfirst : getFromCache s.m_mapDNSRecord c.strDomain c.nIndex (s.clock + c.first)
      c.rands.2.1 = some .retry
  · rw [hfirst] at hasked
    have hsecond := getFromCache_retry (Nat.le_add_right _ c.second) c.nIndex c.rands.2.2 hasked
    refine Or.inl ⟨hasked, ?_⟩
    rw [getMXRecord, if_neg hd]
    dsimp only
    rw [ht, hfirst]
    dsimp only
    rw [hsecond]
  · refine Or.inr ⟨_, hfirst, hasked, ?_⟩
    rw [getMXRecord, if_neg hd]
    dsimp only
    rw [ht]
    dsimp only
    split
    next h => exact absurd h hfirst
    next => rfl

/-- A call returns what it may if and only if it is safe. -/
theorem returns_iff_safe {s : State} (h : Kept conf s) (c : Call) :
    Returns conf s c ↔ Safe conf s c := by
  rw [Returns, step]
  by_cases hd : c.strDomain = []
  · rw [getMXRecord, if_pos hd]
    exact iff_of_true (Or.inl hd) (Or.inl hd)
  by_cases hentry : conf.HasEntry c.strDomain ∨ conf.HasEntry other
  · have ht := transport_asked (getFromCache_asked (onInit conf.transport) c.strDomain c.nIndex
      (s.clock + c.first) c.rands.1)
    rcases ht with ⟨-, hno, hno'⟩ | ⟨⟨r, ht, hr⟩, -⟩
    · exact absurd hentry (not_or.mpr ⟨hno, hno'⟩)
    · rw [getMXRecord, if_neg hd]
      dsimp only
      rw [ht]
      exact iff_of_true (hr.imp_right Or.inl) (Or.inr (hentry.imp_right Or.inl))
  obtain ⟨hno, hno'⟩ := not_or.mp hentry
  rw [Safe, or_iff_right hd, or_iff_right hno, or_iff_right hno']
  have hw := h.wait c.first
  rcases getMXRecord_cases s hd hno hno' with ⟨hasked, heq⟩ | ⟨result, hresult, hasked, heq⟩
  · -- the DNS is asked
    rw [heq, answered_owned_iff (hw.wait c.second) hd hno hno']
    cases hasked with
    | absent hnone hnone' =>
        rw [hnone, hnone']
        exact (and_iff_right fun _ hn => by cases hn).symm
    | expired hnode he =>
        rcases Option.or_eq_some_iff.mp hnode with hnode | ⟨hnone, hnode⟩
        · rw [hnode]
          simp only [he, true_and, not_true, false_and, or_false]
        · rw [hnone, hnode]
          refine (and_iff_right fun _ hn => ?_).symm
          cases hn
          exact he
  · -- an answer that is kept is returned
    rw [heq]
    dsimp only
    have hforeign : ∀ {node}, s.m_mapDNSRecord.find (key c.strDomain) = none →
        s.m_mapDNSRecord.find (key other) = some node → ¬ node.expired (s.clock + c.first) →
        (∀ a ∈ s.answers, key a.domain ≠ key c.strDomain) ∧
        ¬ ((∀ node ∈ s.m_mapDNSRecord.find (key other), node.expired (s.clock + c.first)) ∧
          Fresh conf c) := by
      intro node hnone hnode he
      refine ⟨fun a ha hk => ?_, fun hall => he (hall.1 _ hnode)⟩
      obtain ⟨node', hfind, -⟩ := h.known a ha
      rw [hk, hnone] at hfind
      cases hfind
    cases hasked with
    | absent => exact absurd rfl hresult
    | expired => exact absurd rfl hresult
    | empty hnode he hl =>
        rw [owned_notfound_iff hd]
        rcases Option.or_eq_some_iff.mp hnode with hnode | ⟨hnone, hnode⟩
        · rw [hnode]
          simp only [he, false_and, not_false_eq_true, true_and, false_or]
          obtain ⟨a, ha, hk, -, hrecords⟩ := h.kept hnode
          exact iff_of_true ⟨a, ha, hk, hrecords.symm.trans hl⟩ (Or.inl hl)
        · obtain ⟨hother, hsafe⟩ := hforeign hnone hnode he
          rw [hnone]
          refine iff_of_false ?_ hsafe
          rintro ⟨a, ha, hk, -⟩
          exact hother a ha hk
    | found hnode he hr =>
        rename_i node r
        rw [owned_ok_iff hno hno']
        rcases Option.or_eq_some_iff.mp hnode with hnode | ⟨hnone, hnode⟩
        · rw [hnode]
          simp only [he, false_and, not_false_eq_true, true_and, false_or]
          have hpos : 0 < s.clock := h.clock_pos
          constructor
          · rintro ⟨a, ha, hk, hle, -⟩
            obtain ⟨node', hfind, hexp⟩ := h.known a ha
            rw [hk, hnode] at hfind
            cases hfind
            exact Or.inr (by omega)
          · rintro (hl | hlt)
            · rw [hl] at hr
              cases hr
            · obtain ⟨a, ha, hk, hexp, hrecords⟩ := h.kept hnode
              refine ⟨a, ha, hk, ?_, hrecords ▸ hr⟩
              rw [MXRecordCacheNode.expired] at he
              omega
        · obtain ⟨hother, hsafe⟩ := hforeign hnone hnode he
          rw [hnone]
          refine iff_of_false ?_ hsafe
          rintro ⟨a, ha, hk, -⟩
          exact hother a ha hk

/-- Every call of a history returns what it may if and only if every call is safe where it is
made. -/
theorem owned_iff_safe (conf : Config) (clock : Nat) (hclock : 0 < clock) (calls : List Call) :
    (∀ p ∈ visits (step conf) (State.start clock) calls, Returns conf p.1 p.2) ↔
      ∀ p ∈ visits (step conf) (State.start clock) calls, Safe conf p.1 p.2 :=
  forall_visits_iff_of_invariant (I := Kept conf) (fun _ c h => returns_iff_safe h c)
    (fun _ c h _ => h.step c) (kept_start conf hclock)

/-- A call, and one address in the answer of the DNS. -/
def callFor (strDomain ip : Text) (first : Nat) : Call :=
  ⟨strDomain, 0, first, 0, 0, (0, 0, 0), ⟨.ok, [ip], []⟩⟩

/-- Two calls for a domain, with letters of either case. -/
def twoCalls : List Call :=
  [callFor "a.cn".toList "10.0.0.1".toList 0, callFor "A.CN".toList "10.0.0.2".toList 600]

theorem owned_twice :
    (∀ p ∈ visits (step ⟨[], 600⟩) (State.start 1300000000) twoCalls, Safe ⟨[], 600⟩ p.1 p.2) ∧
      ∀ p ∈ visits (step ⟨[], 600⟩) (State.start 1300000000) twoCalls,
        Returns ⟨[], 600⟩ p.1 p.2 := by
  have hsafe : ∀ p ∈ visits (step ⟨[], 600⟩) (State.start 1300000000) twoCalls,
      Safe ⟨[], 600⟩ p.1 p.2 := by decide +kernel
  exact ⟨hsafe, (owned_iff_safe ⟨[], 600⟩ 1300000000 (by decide) twoCalls).mpr hsafe⟩

/-- After a call for the word `other` its answer is taken for any domain. -/
theorem not_owned_other : ¬ ∀ p ∈ visits (step ⟨[], 600⟩) (State.start 1300000000)
    [callFor other "10.0.0.1".toList 0, callFor "a.cn".toList "10.0.0.2".toList 0],
    Returns ⟨[], 600⟩ p.1 p.2 := by
  intro h
  have hlast := h _ (List.mem_cons_of_mem _ List.mem_cons_self)
  have hresult : (getMXRecord ⟨[], 600⟩ (step ⟨[], 600⟩ (State.start 1300000000)
      (callFor other "10.0.0.1".toList 0)) (callFor "a.cn".toList "10.0.0.2".toList 0)).1
      = some (.ok ⟨"10.0.0.1".toList, 25⟩) := by decide +kernel
  rw [Returns, hresult] at hlast
  rcases hlast with ⟨pair, hp, -⟩ | ⟨-, pair, hp, -⟩ | ⟨-, -, a, ha, hsame, -⟩
  · cases hp
  · cases hp
  · revert a
    decide +kernel

end Edm.Deliver.MxMgr

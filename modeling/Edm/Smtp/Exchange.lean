import Edm.Support.Inet
import Edm.Support.Run
import Edm.Support.StdMap

/-!
# Smtp — the cache of mail exchangers

`query_mail_eXchange` gives a mail for a domain a host to go to.  `m_mail_eXchange` holds, under a
domain, the records the configuration gives it (`ttl` -1: `load_mail_eXchange`), or those of the
last lookup with the time they were stored.  The records under `all` serve the domains that have
none.

A `MailQuery` is one call: its arguments, the numbers `rand` gives it, the times it reads, and
what the resolver answers.  `queryMailEXchange` is `none` when the call takes a number modulo the
size of an empty vector.

* `resolve_spec`, `query_spec`: what a lookup, and a call, leave in the cache.
* **The cache is stocked** (`exchange_run_iff`).  A call that finds its record expired clears the
  entry before it asks the resolver, and leaves it empty when the resolver has no address for it,
  or when the entry is that of `all`.  These are the only calls that store an empty vector: a
  history has none in it just when every expired record is that of the domain asked for, and is
  looked up with success.
-/

namespace Edm.Smtp

open Support

/-- `Mail_eXchange`. -/
structure MailEXchange where
  host : Text
  port : Int
  ttl : Int
  deriving DecidableEq, Repr

/-- `mailx_map`. -/
abbrev MailxMap := StdMap Text (List MailEXchange)

/-- `m_mail_eXchange[domain].push_back(record)`. -/
def pushBack (m : MailxMap) (domain : Text) (record : MailEXchange) : MailxMap :=
  m.upsert domain fun v => v.getD [] ++ [record]

/-! ### The configured records -/

/-- The characters of a configured transport. -/
def transportChars : Text := "0123456789.:".toList

/-- `inet_addr(s) < 1`: the address is `0.0.0.0`.  A text that is no address gives
`INADDR_NONE`, which is not below 1. -/
def inetAddrLtOne (s : Text) : Bool := inetAton s == some 0

/-- One turn of the loop of `load_mail_eXchange`. -/
def loadTransport (m : MailxMap) (conf : Text × Text) : MailxMap :=
  if conf.2.length < 1 || conf.2.any (!transportChars.contains ·) then m
  else
    let domain := tolower conf.1
    let transport := removeSpace (tolower conf.2)
    let host := (cut ':' transport).1
    if inetAddrLtOne host then m
    else
      let port := atoi (cut ':' transport).2
      if port < 1 ∨ port > 0xffff then m else pushBack m domain ⟨host, port, -1⟩

/-- `load_mail_eXchange`. -/
def loadMailEXchange (listTransport : List (Text × Text)) : MailxMap :=
  listTransport.foldl loadTransport .empty

/-! ### Asking for a host -/

/-- A call of `query_mail_eXchange`.  `mx` and `a` are the entries the resolver gives for the
domain, `none` for `DNS_LOOKUP_NOTFOUND`. -/
structure MailQuery where
  domain : Text
  host : Text
  port : Int
  rand : Nat
  now : Int
  mx : Option (List Text)
  mxNow : Int
  a : Option (List Text)
  aNow : Int
  randResolved : Nat
  deriving Repr

/-- What a call returns, and the cache it leaves. -/
structure Exchanged where
  err : Int
  host : Text
  port : Int
  table : MailxMap

/-- `v[r % v.size()]`: there is none when `v` is empty, where the program divides by zero. -/
def pick (v : List MailEXchange) (r : Nat) : Option MailEXchange := v[r % v.length]?

/-- The entry that serves the domains without one. -/
def mailxAll : Text := "all".toList

/-- The entry the call finds: that of the domain, else that of `all`. -/
def findMailx (m : MailxMap) (domain : Text) : Option (Text × List MailEXchange) :=
  match m.find domain with
  | some v => some (domain, v)
  | none => (m.find mailxAll).map fun v => (mailxAll, v)

/-- The record is a configured one, or was stored less than `m_query_dns_ttl` seconds ago. -/
def MailEXchange.live (x : MailEXchange) (mQueryDnsTtl now : Int) : Bool :=
  decide (x.ttl < 0) || decide (now - x.ttl < mQueryDnsTtl)

/-- The resolver's address is that of another host. -/
def usable (host : Text) : Bool := host != "0.0.0.0".toList && host != "127.0.0.1".toList

/-- The loop over the resolver's entries. -/
def pushRecords (domain : Text) (now : Int) (m : MailxMap) (hosts : List Text) : MailxMap :=
  hosts.foldl (fun m host => if usable host then pushBack m domain ⟨host, 25, now⟩ else m) m

/-- The end of a lookup: a record of the domain is drawn, if it has any. -/
def draw (q : MailQuery) (m : MailxMap) (empty : Option Exchanged) : Option Exchanged :=
  match m.find q.domain with
  | none | some [] => empty
  | some v => (pick v q.randResolved).map fun x => ⟨0, x.host, x.port, m⟩

/-- What `query_mail_eXchange` does when the cache has no live record. -/
def resolve (q : MailQuery) (m : MailxMap) : Option Exchanged :=
  match q.mx with
  | none => some ⟨-1, q.host, q.port, m⟩
  | some hosts =>
      let m := pushRecords q.domain q.mxNow m hosts
      draw q m <|
        match q.a with
        | none => some ⟨-1, q.host, q.port, m⟩
        | some hosts =>
            let m := pushRecords q.domain q.aNow m hosts
            draw q m (some ⟨-1, q.host, q.port, m⟩)

/-- `query_mail_eXchange`. -/
def queryMailEXchange (mQueryDnsTtl : Int) (m : MailxMap) (q : MailQuery) : Option Exchanged :=
  match findMailx m q.domain with
  | some (key, v) =>
      (pick v q.rand).bind fun x =>
        if x.live mQueryDnsTtl q.now then
          if x.host = q.host ∧ x.port = q.port then
            -- the host that has just been tried: the next one
            (pick v (q.rand % v.length + 1)).map fun y => ⟨0, y.host, y.port, m⟩
          else some ⟨0, x.host, x.port, m⟩
        else resolve q (m.set key [])
  | none => resolve q m

/-- The cache after a call. -/
def exchangeStep (mQueryDnsTtl : Int) (m : MailxMap) (q : MailQuery) : MailxMap :=
  ((queryMailEXchange mQueryDnsTtl m q).map (·.table)).getD m

/-! ### What the cache should hold -/

/-- No entry of the cache is empty. -/
def Stocked (m : MailxMap) : Prop := ∀ k v, m.find k = some v → v ≠ []

/-- The call gives a host of the entry of the domain, or of that of `all` when the domain has
none. -/
def Exchanged.FromEntry (r : Exchanged) (m : MailxMap) (q : MailQuery) : Prop :=
  ∃ k v x, (k = q.domain ∨ m.find q.domain = none ∧ k = mailxAll) ∧ r.table.find k = some v ∧
    x ∈ v ∧ r.host = x.host ∧ r.port = x.port

/-- The call returns, leaves no entry empty, and gives a host of the entry it found, if any. -/
def Answers (mQueryDnsTtl : Int) (m : MailxMap) (q : MailQuery) : Prop :=
  ∃ r, queryMailEXchange mQueryDnsTtl m q = some r ∧ Stocked r.table ∧
    (r.err = 0 → r.FromEntry m q)

/-- The resolver has an address for the domain. -/
def MailQuery.Resolves (q : MailQuery) : Prop :=
  ∃ hosts ∈ q.mx, hosts.any usable = true ∨ ∃ hosts' ∈ q.a, hosts'.any usable = true

/-- A record the call finds expired is one of the domain, and the resolver has another. -/
def Restocks (mQueryDnsTtl : Int) (m : MailxMap) (q : MailQuery) : Prop :=
  ∀ k v x, findMailx m q.domain = some (k, v) → pick v q.rand = some x →
    x.live mQueryDnsTtl q.now = false → k = q.domain ∧ q.Resolves

/-! ### Drawing a record -/

theorem exists_pick {v : List MailEXchange} (h : v ≠ []) (r : Nat) : ∃ x, pick v r = some x := by
  have := Nat.mod_lt r (List.length_pos_iff.mpr h)
  exact ⟨_, List.getElem?_eq_getElem this⟩

theorem mem_of_pick {v : List MailEXchange} {r : Nat} {x : MailEXchange} (h : pick v r = some x) :
    x ∈ v :=
  List.mem_of_getElem? h

theorem findMailx_cases {m : MailxMap} {domain k : Text} {v : List MailEXchange}
    (h : findMailx m domain = some (k, v)) :
    (k = domain ∨ m.find domain = none ∧ k = mailxAll) ∧ m.find k = some v := by
  unfold findMailx at h
  cases hd : m.find domain with
  | some u => rw [hd] at h; cases h; exact ⟨.inl rfl, hd⟩
  | none =>
      rw [hd] at h
      obtain ⟨u, hu, he⟩ := Option.map_eq_some_iff.mp h
      cases he
      exact ⟨.inr ⟨rfl, rfl⟩, hu⟩

theorem find_of_findMailx_none {m : MailxMap} {domain : Text} (h : findMailx m domain = none) :
    m.find domain = none := by
  unfold findMailx at h
  cases hd : m.find domain with
  | some u => rw [hd] at h; cases h
  | none => rfl

/-! ### What a lookup leaves -/

section Lookup
variable {q : MailQuery} {m : MailxMap} {domain : Text} {now : Int}

theorem find_pushRecords_ne {k : Text} (h : k ≠ domain) : ∀ (hosts : List Text) (m : MailxMap),
    (pushRecords domain now m hosts).find k = m.find k
  | [], _ => rfl
  | host :: hosts, m => by
      refine (find_pushRecords_ne h hosts _).trans ?_
      dsimp only
      split
      · exact StdMap.find_upsert_ne _ h _
      · rfl

/-- The usable addresses are stored behind the records the domain has. -/
theorem find_pushRecords_self (domain : Text) (now : Int) : ∀ (hosts : List Text) (m : MailxMap),
    (pushRecords domain now m hosts).find domain =
      if hosts.any usable = true then
        some ((m.find domain).getD [] ++ (hosts.filter usable).map fun host => ⟨host, 25, now⟩)
      else m.find domain
  | [], _ => rfl
  | host :: hosts, m => by
      refine (find_pushRecords_self domain now hosts _).trans ?_
      dsimp only
      by_cases hu : usable host = true
      · rw [if_pos hu, pushBack, StdMap.find_upsert_self, List.any_cons, hu, Bool.true_or,
          if_pos rfl, List.filter_cons_of_pos hu, List.map_cons, Option.getD_some]
        split
        · rw [List.append_assoc, List.singleton_append]
        · rename_i hn
          have : hosts.filter usable = [] := List.filter_eq_nil_iff.mpr fun x hx hux =>
            hn (List.any_eq_true.mpr ⟨x, hx, hux⟩)
          rw [this]
          rfl
      · rw [if_neg hu, List.any_cons, Bool.eq_false_of_not_eq_true hu, Bool.false_or,
          List.filter_cons_of_neg hu]

theorem draw_empty {e : Option Exchanged} (h : (m.find q.domain).getD [] = []) :
    draw q m e = e := by
  unfold draw
  cases hm : m.find q.domain with
  | none => rfl
  | some v => rw [hm, Option.getD_some] at h; rw [h]

/-- A domain with records is given the host of one of them. -/
theorem draw_stocked {v : List MailEXchange} (e : Option Exchanged)
    (h : m.find q.domain = some v) (hv : v ≠ []) :
    ∃ x ∈ v, draw q m e = some ⟨0, x.host, x.port, m⟩ := by
  obtain ⟨x, hx⟩ := exists_pick hv q.randResolved
  refine ⟨x, mem_of_pick hx, ?_⟩
  obtain ⟨y, v, rfl⟩ := List.exists_cons_of_ne_nil hv
  unfold draw
  rw [h]
  show (pick (y :: v) q.randResolved).map _ = _
  rw [hx, Option.map_some]

/-- The loop over the resolver's entries gives a domain without records some, when one of the
addresses is usable. -/
theorem draw_pushRecords (h : (m.find q.domain).getD [] = []) (hosts : List Text) (now : Int)
    (e : Option Exchanged) :
    (hosts.any usable = true ∧ ∃ v x, (pushRecords q.domain now m hosts).find q.domain = some v ∧
        x ∈ v ∧ draw q (pushRecords q.domain now m hosts) e =
          some ⟨0, x.host, x.port, pushRecords q.domain now m hosts⟩) ∨
      ¬ hosts.any usable = true ∧
        (pushRecords q.domain now m hosts).find q.domain = m.find q.domain ∧
        draw q (pushRecords q.domain now m hosts) e = e := by
  by_cases hu : hosts.any usable = true
  · refine .inl ⟨hu, ?_⟩
    have hf := find_pushRecords_self q.domain now hosts m
    rw [if_pos hu, h, List.nil_append] at hf
    obtain ⟨host, hhost, huse⟩ := List.any_eq_true.mp hu
    have hmem := List.mem_map_of_mem (f := fun host => (⟨host, 25, now⟩ : MailEXchange))
      (List.mem_filter.mpr ⟨hhost, huse⟩)
    obtain ⟨x, hx, hd⟩ := draw_stocked e hf (List.ne_nil_of_mem hmem)
    exact ⟨_, x, hf, hx, hd⟩
  · have hf := find_pushRecords_self q.domain now hosts m
    rw [if_neg hu] at hf
    exact .inr ⟨hu, hf, draw_empty (by rw [hf]; exact h)⟩

/-- A lookup for a domain without records gives it some, and the call a host of them, when the
resolver has an address; else it leaves the cache as it was. -/
theorem resolve_spec (h : (m.find q.domain).getD [] = []) : ∃ r, resolve q m = some r ∧
    (∀ k, k ≠ q.domain → r.table.find k = m.find k) ∧
    (q.Resolves ∧ (∃ v x, r.table.find q.domain = some v ∧ x ∈ v ∧ r.host = x.host ∧
        r.port = x.port) ∨
      ¬ q.Resolves ∧ r.err = -1 ∧ r.table.find q.domain = m.find q.domain) := by
  unfold resolve
  cases hmx : q.mx with
  | none =>
      refine ⟨_, rfl, fun _ _ => rfl, .inr ⟨?_, rfl, rfl⟩⟩
      rintro ⟨hosts, hhosts, -⟩
      rw [hmx] at hhosts
      cases hhosts
  | some hosts =>
      dsimp only
      rcases draw_pushRecords h hosts q.mxNow _ with ⟨hu, v, x, hv, hx, hd⟩ | ⟨hu, hf, hd⟩
      · exact ⟨_, hd, fun k hk => find_pushRecords_ne hk hosts m,
          .inl ⟨⟨hosts, hmx, .inl hu⟩, v, x, hv, hx, rfl, rfl⟩⟩
      · -- no exchanger is usable: the addresses of the domain itself
        rw [hd]
        cases ha : q.a with
        | none =>
            refine ⟨_, rfl, fun k hk => find_pushRecords_ne hk hosts m, .inr ⟨?_, rfl, hf⟩⟩
            rintro ⟨hosts', hmem, h' | ⟨hostsA, hmemA, -⟩⟩
            · rw [hmx] at hmem; cases hmem; exact hu h'
            · rw [ha] at hmemA; cases hmemA
        | some hostsA =>
            dsimp only
            have h' : ((pushRecords q.domain q.mxNow m hosts).find q.domain).getD [] = [] := by
              rw [hf]; exact h
            have hne : ∀ k, k ≠ q.domain → (pushRecords q.domain q.aNow
                (pushRecords q.domain q.mxNow m hosts) hostsA).find k = m.find k := fun k hk =>
              (find_pushRecords_ne hk hostsA _).trans (find_pushRecords_ne hk hosts m)
            rcases draw_pushRecords h' hostsA q.aNow _ with
              ⟨huA, v, x, hv, hx, hd⟩ | ⟨huA, hfA, hd⟩
            · exact ⟨_, hd, hne,
                .inl ⟨⟨hosts, hmx, .inr ⟨hostsA, ha, huA⟩⟩, v, x, hv, hx, rfl, rfl⟩⟩
            · refine ⟨_, hd, hne, .inr ⟨?_, rfl, hfA.trans hf⟩⟩
              rintro ⟨hosts', hmem, h' | ⟨hosts'', hmemA, h'⟩⟩
              · rw [hmx] at hmem; cases hmem; exact hu h'
              · rw [ha] at hmemA; cases hmemA; exact huA h'

end Lookup

/-! ### What a call leaves -/

theorem Stocked.of_find {m m' : MailxMap} {domain : Text} (h : Stocked m)
    (hne : ∀ k, k ≠ domain → m'.find k = m.find k) (hd : m'.find domain ≠ some []) :
    Stocked m' := by
  intro k v hv
  by_cases hk : k = domain
  · rintro rfl
    exact hd (hk ▸ hv)
  · exact h k v (hne k hk ▸ hv)

/-- On a stocked cache a call returns.  It leaves the cache stocked just when an expired record it
finds is one of the domain and the resolver has another. -/
theorem query_spec (mQueryDnsTtl : Int) {m : MailxMap} (q : MailQuery) (hm : Stocked m) :
    ∃ r, queryMailEXchange mQueryDnsTtl m q = some r ∧
      (Stocked r.table ↔ Restocks mQueryDnsTtl m q) ∧ (r.err = 0 → r.FromEntry m q) := by
  unfold queryMailEXchange
  cases hf : findMailx m q.domain with
  | none =>
      have hd := find_of_findMailx_none hf
      obtain ⟨r, hr, hne, h⟩ := resolve_spec (q := q) (m := m) (by rw [hd]; rfl)
      refine ⟨r, hr, iff_of_true ?_ fun k v x hk => ?_, fun herr => ?_⟩
      · refine hm.of_find hne ?_
        rcases h with ⟨-, v, x, hv, hx, -⟩ | ⟨-, -, hsame⟩
        · rw [hv]
          rintro ⟨⟩
          cases hx
        · rw [hsame, hd]
          rintro ⟨⟩
      · rw [hf] at hk; cases hk
      · rcases h with ⟨-, v, x, hv, hx, hh, hp⟩ | ⟨-, hfail, -⟩
        · exact ⟨_, v, x, .inl rfl, hv, hx, hh, hp⟩
        · rw [hfail] at herr; cases herr
  | some e =>
      obtain ⟨k, v⟩ := e
      obtain ⟨hk, hv⟩ := findMailx_cases hf
      have hv₀ := hm k v hv
      obtain ⟨x, hx⟩ := exists_pick hv₀ q.rand
      have huniq : ∀ k' v' x', findMailx m q.domain = some (k', v') → pick v' q.rand = some x' →
          k' = k ∧ x' = x := fun k' v' x' h₁ h₂ => by
        rw [hf] at h₁
        cases h₁
        rw [hx] at h₂
        cases h₂
        exact ⟨rfl, rfl⟩
      dsimp only
      rw [hx, Option.bind_some]
      cases hl : x.live mQueryDnsTtl q.now with
      | true =>
          have hrest : Restocks mQueryDnsTtl m q := fun k' v' x' h₁ h₂ h₃ => by
            rw [(huniq k' v' x' h₁ h₂).2, hl] at h₃
            cases h₃
          rw [if_pos rfl]
          split
          · obtain ⟨y, hy⟩ := exists_pick hv₀ (q.rand % v.length + 1)
            rw [hy]
            exact ⟨_, rfl, iff_of_true hm hrest,
              fun _ => ⟨k, v, y, hk, hv, mem_of_pick hy, rfl, rfl⟩⟩
          · exact ⟨_, rfl, iff_of_true hm hrest,
              fun _ => ⟨k, v, x, hk, hv, mem_of_pick hx, rfl, rfl⟩⟩
      | false =>
          -- the entry is cleared before the resolver is asked
          rw [if_neg Bool.false_ne_true]
          have hset : ∀ k', k' ≠ k → (m.set k []).find k' = m.find k' := fun k' h => by
            rw [StdMap.find_set, if_neg h]
          have hself : (m.set k []).find k = some [] := by rw [StdMap.find_set, if_pos rfl]
          have hkey : k = q.domain ∨ k ≠ q.domain ∧ m.find q.domain = none := by
            rcases hk with hk | ⟨hd, -⟩
            · exact .inl hk
            · refine .inr ⟨?_, hd⟩
              rintro rfl
              rw [hd] at hv
              cases hv
          have hempty : ((m.set k []).find q.domain).getD [] = [] := by
            rcases hkey with rfl | ⟨hne, hd⟩
            · rw [hself]; rfl
            · rw [hset _ hne.symm, hd]; rfl
          obtain ⟨r, hr, hne, h⟩ := resolve_spec hempty
          refine ⟨r, hr, ⟨fun hst k' v' x' h₁ h₂ _ => ?_, fun hrest => ?_⟩, fun herr => ?_⟩
          · obtain ⟨rfl, -⟩ := huniq k' v' x' h₁ h₂
            have hkd : k' = q.domain := by
              by_contra hkd
              exact hst k' [] ((hne k' hkd).trans hself) rfl
            refine ⟨hkd, ?_⟩
            rcases h with ⟨hres, -⟩ | ⟨-, -, hsame⟩
            · exact hres
            · rw [← hkd, hself] at hsame
              exact absurd rfl (hst k' [] hsame)
          · obtain ⟨rfl, hres⟩ := hrest k v x hf hx hl
            rcases h with ⟨-, u, y, hu, hy, -⟩ | ⟨hnres, -⟩
            · refine hm.of_find (fun k' hk' => (hne k' hk').trans (hset k' hk')) ?_
              rw [hu]
              rintro ⟨⟩
              cases hy
            · exact absurd hres hnres
          · rcases h with ⟨-, u, y, hu, hy, hh, hp⟩ | ⟨-, hfail, -⟩
            · exact ⟨_, u, y, .inl rfl, hu, hy, hh, hp⟩
            · rw [hfail] at herr; cases herr

/-! ### Histories -/

theorem loadTransport_stocked {m : MailxMap} (h : Stocked m) (conf : Text × Text) :
    Stocked (loadTransport m conf) := by
  unfold loadTransport
  split
  · exact h
  · dsimp only
    split
    · exact h
    · split
      · exact h
      · refine h.of_find (fun k hk => StdMap.find_upsert_ne _ hk _) ?_
        rw [pushBack, StdMap.find_upsert_self]
        intro he
        exact List.append_ne_nil_of_right_ne_nil _ (List.cons_ne_nil _ _) (Option.some.inj he)

theorem loadMailEXchange_stocked (listTransport : List (Text × Text)) :
    Stocked (loadMailEXchange listTransport) :=
  (Run.foldl loadTransport listTransport _).invariant
    (fun _ _ _ h he => he ▸ loadTransport_stocked h _) (by rintro k v ⟨⟩)

/-- **The cache is stocked.**  Every call of a history returns, leaves no entry of the cache empty
and gives a host of the entry it found, just when every call that finds its record expired finds
it under the domain it asks for, and is given an address for that domain. -/
theorem exchange_run_iff (mQueryDnsTtl : Int) (listTransport : List (Text × Text))
    (qs : List MailQuery) :
    (∀ p ∈ visits (exchangeStep mQueryDnsTtl) (loadMailEXchange listTransport) qs,
        Answers mQueryDnsTtl p.1 p.2) ↔
      ∀ p ∈ visits (exchangeStep mQueryDnsTtl) (loadMailEXchange listTransport) qs,
        Restocks mQueryDnsTtl p.1 p.2 := by
  refine forall_visits_iff_of_invariant (I := Stocked) (fun m q hm => ?_) (fun m q hm hq => ?_)
    (loadMailEXchange_stocked listTransport)
  · obtain ⟨r, hr, hst, hfrom⟩ := query_spec mQueryDnsTtl q hm
    constructor
    · rintro ⟨r', hr', hst', -⟩
      cases Option.some.inj (hr.symm.trans hr')
      exact hst.mp hst'
    · exact fun h => ⟨r, hr, hst.mpr h, hfrom⟩
  · obtain ⟨r, hr, hst, -⟩ := query_spec mQueryDnsTtl q hm
    rw [exchangeStep, hr]
    exact hst.mpr hq

/-- A call for `x.com` at the time `now`, with the resolver's answer to it. -/
def callAt (now : Int) (mx : Option (List Text)) : MailQuery :=
  ⟨"x.com".toList, [], 0, 0, now, mx, now, none, now, 0⟩

/-- The record of `x.com` expires, the resolver does not find the domain, and the next call
divides by zero. -/
theorem exchange_expired_notfound :
    ∃ p ∈ visits (exchangeStep 3600) (loadMailEXchange [])
      [callAt 0 (some ["1.2.3.4".toList]), callAt 3600 none, callAt 3601 none],
      queryMailEXchange 3600 p.1 p.2 = none ∧ ¬ Answers 3600 p.1 p.2 := by
  refine ⟨_, List.mem_cons_of_mem _ (List.mem_cons_of_mem _ List.mem_cons_self), ?_⟩
  have hnone : queryMailEXchange 3600 ([callAt 0 (some ["1.2.3.4".toList]), callAt 3600 none].foldl
      (exchangeStep 3600) (loadMailEXchange [])) (callAt 3601 none) = none := by decide
  refine ⟨hnone, ?_⟩
  rintro ⟨r, hr, -⟩
  exact absurd (hnone.symm.trans hr) (by rintro ⟨⟩)

end Edm.Smtp

import Mathlib.Data.List.Find
import Edm.Support.Run
import Edm.Support.StdMap
import Edm.Smtp.Context

/-!
# Smtp — Quota

`SmtpSvr::set_real_sender`: a mail is relayed under one of the senders configured for the domain
of its recipient, each of which may send `quota` mails in `interval` seconds; a domain without a
configured sender is relayed under the sender the client named, up to `m_control_number` mails in
`m_control_interval` seconds.

* `loadDeliveryQuota`, `setRealSender` are the functions.  A `DeliveryQuota` carries what the
  loader and `onInit` check, that interval and quota are positive, and a `SenderQuotaMap` that
  it names a sender.
* `QuotaLedger` keeps, beside the tables, the mails each pair of domain and sender was given since
  its window started, and the calls made since then.
* `QuotaLedger.CallLaw` is the law of one call; `quota_history_law`: it holds at every call of
  every history in which no window with a count is found `2^31` or more seconds old.
-/

namespace Edm.Smtp
open Support

/-! ### The tables -/

/-- `struct Delivery_Quota`. -/
structure DeliveryQuota where
  interval : Int
  quota : Int
  number : Int
  tpoint : Int
  interval_pos : 1 ≤ interval
  quota_pos : 1 ≤ quota
  deriving DecidableEq

/-- `sender_quota_map`; one is made with the entry it is made for. -/
structure SenderQuotaMap where
  senders : StdMap Text DeliveryQuota
  nonempty : senders.entries ≠ []

/-- `domain_quota_map`. -/
abbrev DomainQuotaMap := StdMap Text SenderQuotaMap

/-- `m_delivery_quota` and `m_cache_quota`. -/
structure Quotas where
  mDeliveryQuota : DomainQuotaMap
  mCacheQuota : DomainQuotaMap

/-- `m_control_interval` and `m_control_number`; `onInit` fails unless both are positive. -/
structure Control where
  mControlInterval : Int
  mControlNumber : Int
  interval_pos : 1 ≤ mControlInterval
  number_pos : 1 ≤ mControlNumber

/-- The map of one sender. -/
def SenderQuotaMap.single (sender : Text) (q : DeliveryQuota) : SenderQuotaMap :=
  ⟨⟨[(sender, q)], List.pairwise_singleton _ _⟩, List.cons_ne_nil _ _⟩

theorem upsert_entries_ne_nil {m : StdMap Text DeliveryQuota} {s : Text}
    {f : Option DeliveryQuota → DeliveryQuota} : (m.upsert s f).entries ≠ [] := by
  intro h
  have hs := m.find_upsert_self s f
  rw [StdMap.find, h] at hs
  cases hs

/-- `map::insert`, which keeps the value of a key that is there. -/
def SenderQuotaMap.insert (m : SenderQuotaMap) (sender : Text) (q : DeliveryQuota) :
    SenderQuotaMap :=
  ⟨m.senders.upsert sender fun o => o.getD q, upsert_entries_ne_nil⟩

/-- The map with the value `q` at a sender. -/
def SenderQuotaMap.set (m : SenderQuotaMap) (sender : Text) (q : DeliveryQuota) : SenderQuotaMap :=
  ⟨m.senders.set sender q, upsert_entries_ne_nil⟩

/-- A loop over the senders. -/
def SenderQuotaMap.visit (f : Text → DeliveryQuota → DeliveryQuota × Bool) (m : SenderQuotaMap) :
    SenderQuotaMap × Option Text :=
  (⟨(m.senders.visit f).1, StdMap.visit_entries_ne_nil m.nonempty⟩, (m.senders.visit f).2)

/-! ### `load_delivery_quota` -/

def otherQuotaKey : Text := "other".toList
def otherDefaultKey : Text := "default".toList

/-- One line of the section `/smtpsvr/sender`: `sender = "domain|interval|quota"`. -/
def loadDeliveryQuotaLine (now : Int) (table : DomainQuotaMap) (line : Text × Text) :
    DomainQuotaMap :=
  let minorKey := tolower line.1
  let secondStr := tolower line.2
  if minorKey = otherDefaultKey then table
  else
    let (majorKey, secondStr) := cut '|' secondStr
    let (interval, secondStr) := cut '|' secondStr
    let (quotaValue, _) := cut '|' secondStr
    if h : 1 ≤ atoi interval ∧ 1 ≤ atoi quotaValue ∧ minorKey ≠ [] ∧ majorKey ≠ [] then
      let tQuota : DeliveryQuota := ⟨atoi interval, atoi quotaValue, 0, now, h.1, h.2.1⟩
      table.upsert majorKey fun
        | none => .single minorKey tQuota
        | some m => m.insert minorKey tQuota
    else table

/-- `load_delivery_quota`, over the lines of the section. -/
def loadDeliveryQuota (now : Int) (conf : List (Text × Text)) : DomainQuotaMap :=
  conf.foldl (loadDeliveryQuotaLine now) .empty

/-! ### `set_real_sender` -/

/-- The window of a sender, as a call finds it: it starts at the call when nothing is counted in
it, and is restarted when it is older than its interval. -/
def DeliveryQuota.refresh (tpEnd : Int) (q : DeliveryQuota) : DeliveryQuota :=
  let q := if q.number = 0 then { q with tpoint := tpEnd } else q
  let interval := intOfDouble (tpEnd - q.tpoint)
  if q.interval < interval then { q with number := 0, tpoint := tpEnd } else q

/-- A sender is probed: `number++ < quota` on the window as the call finds it. -/
def DeliveryQuota.probe (tpEnd : Int) (q : DeliveryQuota) : DeliveryQuota × Bool :=
  let q := q.refresh tpEnd
  ({ q with number := int32 (q.number + 1) }, q.number < q.quota)

/-- The entry of `m_delivery_quota` a domain is sent under: its own, or that of `other`. -/
def Quotas.configured (qs : Quotas) (domain : Text) : Option (Text × SenderQuotaMap) :=
  match qs.mDeliveryQuota.find domain with
  | some m => some (domain, m)
  | none => (qs.mDeliveryQuota.find otherQuotaKey).map fun m => (otherQuotaKey, m)

/-- The tables with the senders `m` at a configured key. -/
def Quotas.storeDelivery (qs : Quotas) (key : Text) (m : SenderQuotaMap) : Quotas :=
  { qs with mDeliveryQuota := qs.mDeliveryQuota.set key m }

/-- The tables with the senders `m` at a domain of the cache. -/
def Quotas.storeCache (qs : Quotas) (domain : Text) (m : SenderQuotaMap) : Quotas :=
  { qs with mCacheQuota := qs.mCacheQuota.set domain m }

/-- A sender that was not seen before, with the mail it is seen for. -/
def Control.newSender (ctl : Control) (now : Int) : DeliveryQuota :=
  ⟨ctl.mControlInterval, ctl.mControlNumber, 1, now, ctl.interval_pos, ctl.number_pos⟩

/-- `set_real_sender`. -/
def setRealSender (ctl : Control) (now : Int) (qs : Quotas) (ctx : SmtpContext) :
    Int × Quotas × SmtpContext :=
  match qs.configured ctx.rcptDomain with
  | some (key, m) =>
      let r := m.visit fun _ => DeliveryQuota.probe now
      let qs := qs.storeDelivery key r.1
      match r.2 with
      | some sender => (0, qs, { ctx with realSender := sender })
      | none => (-1, qs, { ctx with replyText := smtpReply600 })
  | none =>
      match qs.mCacheQuota.find ctx.rcptDomain with
      | none =>
          let m := SenderQuotaMap.single ctx.smtpMail (ctl.newSender now)
          (0, qs.storeCache ctx.rcptDomain m, { ctx with realSender := ctx.smtpMail })
      | some m =>
          match m.senders.find ctx.smtpMail with
          | none =>
              let m := m.set ctx.smtpMail (ctl.newSender now)
              (0, qs.storeCache ctx.rcptDomain m, { ctx with realSender := ctx.smtpMail })
          | some q =>
              let m := m.set ctx.smtpMail (q.probe now).1
              let qs := qs.storeCache ctx.rcptDomain m
              if (q.probe now).2 then (0, qs, { ctx with realSender := ctx.smtpMail })
              else (-1, qs, { ctx with replyText := smtpReply600 })

/-- The function gives the session a sender, or refuses with the reply 600. -/
theorem setRealSender_cases (ctl : Control) (now : Int) (qs : Quotas) (ctx : SmtpContext) :
    (∃ qs' sender, setRealSender ctl now qs ctx = (0, qs', { ctx with realSender := sender })) ∨
      ∃ qs', setRealSender ctl now qs ctx = (-1, qs', { ctx with replyText := smtpReply600 }) := by
  unfold setRealSender
  split
  · simp only
    split
    · exact .inl ⟨_, _, rfl⟩
    · exact .inr ⟨_, rfl⟩
  · split
    · exact .inl ⟨_, _, rfl⟩
    · split
      · exact .inl ⟨_, _, rfl⟩
      · simp only
        split
        · exact .inl ⟨_, _, rfl⟩
        · exact .inr ⟨_, rfl⟩

/-! ### The ledger -/

/-- A counting window: a configured sender of a domain key, or a sender the cache holds for a
recipient domain. -/
inductive QuotaPair where
  | configured (key sender : Text)
  | cached (domain sender : Text)
  deriving DecidableEq

/-- The entry of a pair. -/
def Quotas.entry (qs : Quotas) : QuotaPair → Option DeliveryQuota
  | .configured key sender => (qs.mDeliveryQuota.find key).bind (·.senders.find sender)
  | .cached domain sender => (qs.mCacheQuota.find domain).bind (·.senders.find sender)

/-- The pairs a mail may be sent under, in map order. -/
def Quotas.candidates (qs : Quotas) (ctx : SmtpContext) : List QuotaPair :=
  match qs.configured ctx.rcptDomain with
  | some (key, m) => m.senders.entries.map fun e => .configured key e.1
  | none => [.cached ctx.rcptDomain ctx.smtpMail]

/-- One call of `set_real_sender`: when it is made, and for which session. -/
structure SenderCall where
  now : Int
  ctx : SmtpContext

/-- The tables, the mails each pair was given since its window started, and the calls made since
then. -/
structure QuotaLedger where
  quotas : Quotas
  given : QuotaPair → Int
  calls : QuotaPair → Int

/-- The ledger of a server that has loaded its tables. -/
def QuotaLedger.loaded (t₀ : Int) (conf : List (Text × Text)) : QuotaLedger :=
  ⟨⟨loadDeliveryQuota t₀ conf, .empty⟩, fun _ => 0, fun _ => 0⟩

namespace QuotaLedger
variable (ctl : Control) (l : QuotaLedger) (c : SenderCall)

/-- The pair a call gives its mail to. -/
def winner : Option QuotaPair :=
  let r := setRealSender ctl c.now l.quotas c.ctx
  if r.1 = 0 then
    match l.quotas.configured c.ctx.rcptDomain with
    | some (key, _) => some (.configured key r.2.2.realSender)
    | none => some (.cached c.ctx.rcptDomain r.2.2.realSender)
  else none

/-- The window of a pair has started in a call: its `tpoint` is another one. -/
def Started (qs qs' : Quotas) (p : QuotaPair) : Prop :=
  (qs.entry p).map DeliveryQuota.tpoint ≠ (qs'.entry p).map DeliveryQuota.tpoint

instance (qs qs' : Quotas) (p : QuotaPair) : Decidable (Started qs qs' p) :=
  inferInstanceAs (Decidable (_ ≠ _))

/-- The ledger after a call. -/
def step : QuotaLedger :=
  let qs' := (setRealSender ctl c.now l.quotas c.ctx).2.1
  { quotas := qs'
    given := fun p => (if Started l.quotas qs' p then 0 else l.given p) +
      (if l.winner ctl c = some p then 1 else 0)
    calls := fun p => (if Started l.quotas qs' p then 0 else l.calls p) + 1 }

/-- The pair has been given its quota, in a window that is not older than its interval. -/
def exhausted (now : Int) (p : QuotaPair) : Bool :=
  match l.quotas.entry p with
  | some q => l.given p == q.quota && decide (now - q.tpoint ≤ q.interval)
  | none => false

/-- No pair was given more than its quota since its window started, and a cached pair counts by
`m_control_interval` and `m_control_number`. -/
structure Bounded : Prop where
  quota : ∀ p q, l.quotas.entry p = some q → l.given p ≤ q.quota
  control : ∀ domain sender q, l.quotas.entry (.cached domain sender) = some q →
    q.interval = ctl.mControlInterval ∧ q.quota = ctl.mControlNumber

/-- The law of one call.  The mail is given to the first candidate that is not exhausted, and is
refused when there is none; an entry keeps its interval and quota; its window restarts only when
its counter is 0 or it is older than its interval. -/
structure CallLaw : Prop where
  chosen : l.winner ctl c =
    (l.quotas.candidates c.ctx).find? fun p => !l.exhausted c.now p
  kept : ∀ p q, l.quotas.entry p = some q → ∃ q', (l.step ctl c).quotas.entry p = some q' ∧
    q'.interval = q.interval ∧ q'.quota = q.quota
  restarts : ∀ p q q', l.quotas.entry p = some q → (l.step ctl c).quotas.entry p = some q' →
    q'.tpoint ≠ q.tpoint → q.number = 0 ∨ q.interval < c.now - q.tpoint

/-- No candidate with a count has a window `2^31` or more seconds old, and fewer than `2^31` calls
were made since any window started. -/
structure Fits : Prop where
  young : ∀ p ∈ l.quotas.candidates c.ctx, ∀ q, l.quotas.entry p = some q →
    q.number = 0 ∨ c.now - q.tpoint < 2 ^ 31
  few : ∀ p, (l.step ctl c).calls p < 2 ^ 31

end QuotaLedger

/-! ### One window -/

namespace DeliveryQuota

/-- A call finds a window as it is, with a count in it, or restarts it. -/
theorem refresh_cases (q : DeliveryQuota) (now : Int) :
    (q.refresh now = q ∧ q.number ≠ 0 ∧ intOfDouble (now - q.tpoint) ≤ q.interval) ∨
      (q.refresh now = { q with number := 0, tpoint := now } ∧
        (q.number = 0 ∨ q.interval < intOfDouble (now - q.tpoint))) := by
  have hq := q.interval_pos
  unfold refresh
  by_cases h₀ : q.number = 0
  · right
    have hz : ¬ q.interval < intOfDouble (now - now) := by
      rw [Int.sub_self, intOfDouble_of_range (by decide) (by decide)]; omega
    rw [if_pos h₀]
    exact ⟨(if_neg hz).trans (by rw [h₀]), .inl h₀⟩
  · rw [if_neg h₀]
    by_cases h₁ : q.interval < intOfDouble (now - q.tpoint)
    · exact .inr ⟨if_pos h₁, .inr h₁⟩
    · exact .inl ⟨if_neg h₁, h₀, by omega⟩

/-- An age below `2^31` is compared with the interval as it is. -/
theorem interval_lt_age {q : DeliveryQuota} {now : Int} (h : now - q.tpoint < 2 ^ 31) :
    q.interval < intOfDouble (now - q.tpoint) ↔ q.interval < now - q.tpoint := by
  have hq := q.interval_pos
  unfold intOfDouble
  split <;> omega

@[simp] theorem refresh_interval (q : DeliveryQuota) (now : Int) :
    (q.refresh now).interval = q.interval := by
  rcases q.refresh_cases now with ⟨h, -⟩ | ⟨h, -⟩ <;> rw [h]

@[simp] theorem refresh_quota (q : DeliveryQuota) (now : Int) :
    (q.refresh now).quota = q.quota := by
  rcases q.refresh_cases now with ⟨h, -⟩ | ⟨h, -⟩ <;> rw [h]

@[simp] theorem probe_interval (q : DeliveryQuota) (now : Int) :
    (q.probe now).1.interval = q.interval := q.refresh_interval now

@[simp] theorem probe_quota (q : DeliveryQuota) (now : Int) :
    (q.probe now).1.quota = q.quota := q.refresh_quota now

theorem probe_tpoint (q : DeliveryQuota) (now : Int) :
    (q.probe now).1.tpoint = (q.refresh now).tpoint := rfl

end DeliveryQuota

/-- What the ledger keeps of a window: its counter counts the probes since the window started,
and the mails given since then are these, up to the quota. -/
structure WindowInv (q : DeliveryQuota) (given calls : Int) : Prop where
  number_nonneg : 0 ≤ q.number
  number_le : q.number ≤ calls
  given_eq : given = min q.number q.quota

namespace WindowInv
variable {q : DeliveryQuota} {given calls now : Int}

/-- A window with nothing counted in it. -/
theorem zero (h : q.number = 0) : WindowInv q 0 0 := by
  have hq := q.quota_pos
  exact ⟨by omega, by omega, by omega⟩

theorem given_le (h : WindowInv q given calls) : given ≤ q.quota := by
  rw [h.given_eq]; omega

/-- A probed sender takes the mail unless it has been given its quota in its window. -/
theorem probe_iff (h : WindowInv q given calls)
    (hy : q.number = 0 ∨ now - q.tpoint < 2 ^ 31) :
    (q.probe now).2 = true ↔ ¬ (given = q.quota ∧ now - q.tpoint ≤ q.interval) := by
  have hq := q.quota_pos
  have hg := h.given_eq
  have hp : (q.probe now).2 = true ↔ (q.refresh now).number < (q.refresh now).quota :=
    decide_eq_true_iff
  rw [hp, q.refresh_quota]
  rcases q.refresh_cases now with ⟨hr, h₀, h₁⟩ | ⟨hr, h₁⟩
  · have hage : ¬ q.interval < now - q.tpoint := fun hlt =>
      absurd ((DeliveryQuota.interval_lt_age (hy.resolve_left h₀)).mpr hlt) (by omega)
    rw [hr]
    omega
  · rw [hr]
    refine iff_of_true (by show (0 : Int) < q.quota; omega) fun ⟨hfull, hage⟩ => ?_
    rcases h₁ with h₁ | h₁
    · omega
    · rcases hy with hy | hy
      · omega
      · exact absurd ((DeliveryQuota.interval_lt_age hy).mp h₁) (by omega)

/-- Probing a sender keeps the account of its window. -/
theorem probe (h : WindowInv q given calls)
    (hc : (if q.tpoint ≠ (q.refresh now).tpoint then 0 else calls) + 1 < 2 ^ 31) :
    WindowInv (q.probe now).1
      ((if q.tpoint ≠ (q.refresh now).tpoint then 0 else given) +
        if (q.probe now).2 = true then 1 else 0)
      ((if q.tpoint ≠ (q.refresh now).tpoint then 0 else calls) + 1) := by
  have hq := q.quota_pos
  have hq' := q.interval_pos
  obtain ⟨hn, hle, hg⟩ := h
  have hp : (q.probe now).2 = true ↔ (q.refresh now).number < (q.refresh now).quota :=
    decide_eq_true_iff
  simp only [hp, q.refresh_quota]
  rcases q.refresh_cases now with ⟨hr, -, -⟩ | ⟨hr, h₁⟩
  · have hsame : ¬ q.tpoint ≠ q.tpoint := fun h => h rfl
    rw [hr, if_neg hsame] at hc
    have hnum : (q.probe now).1.number = q.number + 1 := by
      show int32 ((q.refresh now).number + 1) = _
      rw [hr, int32_of_range (by omega) (by omega)]
    rw [hr, if_neg hsame, if_neg hsame]
    exact ⟨by omega, by omega, by rw [q.probe_quota]; split <;> omega⟩
  · have hnum : (q.probe now).1.number = 1 := by
      show int32 ((q.refresh now).number + 1) = _
      rw [hr]; rfl
    have hrn : (q.refresh now).number = 0 := by rw [hr]
    have hrt : (q.refresh now).tpoint = now := by rw [hr]
    -- a window restarted in the second it started in has no count
    have hsame : q.tpoint = now → given = 0 := by
      intro ht
      rcases h₁ with h₁ | h₁
      · omega
      · rw [ht, Int.sub_self, intOfDouble_of_range (by decide) (by decide)] at h₁
        omega
    rw [hrn, hrt]
    refine ⟨by omega, by split <;> omega, ?_⟩
    rw [q.probe_quota, hnum, if_pos (show (0 : Int) < q.quota by omega)]
    by_cases ht : q.tpoint = now
    · rw [if_neg fun h => h ht, hsame ht]; omega
    · rw [if_pos ht]; omega

/-- A sender that was not seen before has been given one mail. -/
theorem newSender {ctl : Control} : WindowInv (ctl.newSender now) (0 + 1) (0 + 1) := by
  have hn := ctl.number_pos
  exact ⟨Int.zero_le_ofNat 1, Int.le_refl 1, (Int.min_eq_left hn).symm⟩

/-- A call that does not probe a sender leaves the account of its window. -/
theorem idle (h : WindowInv q given calls) : WindowInv q given (calls + 1) :=
  ⟨h.number_nonneg, by have := h.number_le; omega, h.given_eq⟩

end WindowInv

/-! ### One call -/

theorem mem_configured {qs : Quotas} {domain key : Text} {m : SenderQuotaMap}
    (h : qs.configured domain = some (key, m)) : qs.mDeliveryQuota.find key = some m := by
  unfold Quotas.configured at h
  split at h
  · cases h; assumption
  · obtain ⟨m', hm, he⟩ := Option.map_eq_some_iff.mp h
    cases he
    exact hm

theorem SenderQuotaMap.find_single (sender s : Text) (q : DeliveryQuota) :
    (SenderQuotaMap.single sender q).senders.find s = if s = sender then some q else none := by
  simp [SenderQuotaMap.single, StdMap.find, StdMap.lookup]

namespace Quotas
variable {qs : Quotas} {key domain : Text} {m : SenderQuotaMap}

/-- Storing senders at a key changes the entries of that key. -/
theorem entry_storeDelivery (p : QuotaPair) : (qs.storeDelivery key m).entry p =
    match p with
    | .configured key' sender =>
        if key' = key then m.senders.find sender else qs.entry (.configured key' sender)
    | .cached domain sender => qs.entry (.cached domain sender) := by
  cases p with
  | configured key' sender =>
      simp only [entry, storeDelivery, StdMap.find_set]
      split <;> rfl
  | cached domain sender => rfl

/-- Storing the senders of a domain, with `q` at one of them, changes one entry. -/
theorem entry_storeCache {sender : Text} {q : DeliveryQuota}
    (hm : ∀ s, m.senders.find s =
      if s = sender then some q else qs.entry (.cached domain s)) (p : QuotaPair) :
    (qs.storeCache domain m).entry p =
      if p = .cached domain sender then some q else qs.entry p := by
  cases p with
  | configured key' sender => rfl
  | cached domain' sender' =>
      simp only [entry, storeCache, StdMap.find_set, QuotaPair.cached.injEq]
      by_cases e : domain' = domain
      · subst e
        rw [if_pos rfl, Option.bind_some, hm]
        simp only [true_and, entry]
      · simp [e]

end Quotas

namespace QuotaLedger
variable {ctl : Control} {l : QuotaLedger} {c : SenderCall}

variable (ctl) in
/-- Under a configured key the mail goes to the sender the loop stops at. -/
theorem step_configured {key : Text} {m : SenderQuotaMap}
    (h : l.quotas.configured c.ctx.rcptDomain = some (key, m)) :
    l.winner ctl c = (m.visit fun _ => DeliveryQuota.probe c.now).2.map (.configured key) ∧
      (l.step ctl c).quotas =
        l.quotas.storeDelivery key (m.visit fun _ => DeliveryQuota.probe c.now).1 := by
  unfold winner step setRealSender
  simp only [h]
  cases (m.visit fun _ => DeliveryQuota.probe c.now).2 <;> exact ⟨rfl, rfl⟩

variable (ctl) in
/-- Without one, a pair the cache does not hold is made and given the mail. -/
theorem step_new (h : l.quotas.configured c.ctx.rcptDomain = none)
    (hn : l.quotas.entry (.cached c.ctx.rcptDomain c.ctx.smtpMail) = none) :
    l.winner ctl c = some (.cached c.ctx.rcptDomain c.ctx.smtpMail) ∧
      ∀ p, (l.step ctl c).quotas.entry p =
        if p = .cached c.ctx.rcptDomain c.ctx.smtpMail then some (ctl.newSender c.now)
        else l.quotas.entry p := by
  have hn' : (l.quotas.mCacheQuota.find c.ctx.rcptDomain).bind
    (·.senders.find c.ctx.smtpMail) = none := hn
  unfold winner step setRealSender
  simp only [h]
  cases hd : l.quotas.mCacheQuota.find c.ctx.rcptDomain with
  | none =>
      refine ⟨rfl, Quotas.entry_storeCache fun s => ?_⟩
      simp [SenderQuotaMap.find_single, Quotas.entry, hd]
  | some m =>
      rw [hd, Option.bind_some] at hn'
      simp only [hn']
      refine ⟨rfl, Quotas.entry_storeCache fun s => ?_⟩
      simp [SenderQuotaMap.set, StdMap.find_set, Quotas.entry, hd]

variable (ctl) in
/-- A pair the cache holds is probed. -/
theorem step_cached {q : DeliveryQuota} (h : l.quotas.configured c.ctx.rcptDomain = none)
    (hq : l.quotas.entry (.cached c.ctx.rcptDomain c.ctx.smtpMail) = some q) :
    (l.winner ctl c = some (.cached c.ctx.rcptDomain c.ctx.smtpMail) ↔
        (q.probe c.now).2 = true) ∧
      ((q.probe c.now).2 = false → l.winner ctl c = none) ∧
      ∀ p, (l.step ctl c).quotas.entry p =
        if p = .cached c.ctx.rcptDomain c.ctx.smtpMail then some (q.probe c.now).1
        else l.quotas.entry p := by
  obtain ⟨m, hd, hm⟩ := Option.bind_eq_some_iff.mp hq
  have hst : ∀ p, (l.quotas.storeCache c.ctx.rcptDomain
      (m.set c.ctx.smtpMail (q.probe c.now).1)).entry p =
      if p = .cached c.ctx.rcptDomain c.ctx.smtpMail then some (q.probe c.now).1
      else l.quotas.entry p :=
    Quotas.entry_storeCache fun s => by
      simp [SenderQuotaMap.set, StdMap.find_set, Quotas.entry, hd]
  unfold winner step setRealSender
  simp only [h, hd, hm]
  cases hp : (q.probe c.now).2 with
  | true => exact ⟨iff_of_true rfl rfl, fun h => (Bool.noConfusion h), hst⟩
  | false => exact ⟨iff_of_false (by simp) (by simp), fun _ => rfl, hst⟩

/-- What a call does to a pair.  It leaves it and gives it no mail; or it probes it, and gives it
the mail when the probe succeeds; or it makes it, with the mail. -/
theorem step_entry (ctl : Control) (l : QuotaLedger) (c : SenderCall) (p : QuotaPair) :
    ((l.step ctl c).quotas.entry p = l.quotas.entry p ∧ l.winner ctl c ≠ some p) ∨
    (∃ q, l.quotas.entry p = some q ∧ (l.step ctl c).quotas.entry p = some (q.probe c.now).1 ∧
      (l.winner ctl c = some p ↔ (q.probe c.now).2 = true)) ∨
    (l.quotas.entry p = none ∧ (l.step ctl c).quotas.entry p = some (ctl.newSender c.now) ∧
      (∃ domain sender, p = .cached domain sender) ∧ l.winner ctl c = some p) := by
  cases h : l.quotas.configured c.ctx.rcptDomain with
  | some km =>
      obtain ⟨key, m⟩ := km
      obtain ⟨hw, he⟩ := step_configured ctl h
      have hkey := mem_configured h
      rw [hw, he, Quotas.entry_storeDelivery]
      cases p with
      | cached domain sender => exact .inl ⟨rfl, by simp⟩
      | configured key' sender =>
          by_cases e : key' = key
          · subst e
            have hent : l.quotas.entry (.configured key' sender) = m.senders.find sender := by
              rw [Quotas.entry, hkey, Option.bind_some]
            have hwin : ((m.visit fun _ => DeliveryQuota.probe c.now).2.map
                (QuotaPair.configured key') = some (.configured key' sender)) ↔
                (m.senders.visit fun _ => DeliveryQuota.probe c.now).2 = some sender := by
              simp [SenderQuotaMap.visit]
            have hfind : (m.visit fun _ => DeliveryQuota.probe c.now).1.senders.find sender =
                _ := m.senders.find_visit (fun _ => DeliveryQuota.probe c.now) sender
            simp only [if_true, hent, hwin, hfind, ne_eq]
            cases hq : m.senders.find sender with
            | none =>
                refine .inl ⟨rfl, fun hs => ?_⟩
                obtain ⟨v, hv⟩ := mem_of_visitList hs
                rw [StdMap.find_eq_some_iff.mpr hv] at hq
                cases hq
            | some q =>
                by_cases hs : ∀ s ∈ (m.senders.visit fun _ => DeliveryQuota.probe c.now).2,
                    sender ≤ s
                · exact .inr (.inl ⟨q, rfl, by rw [Option.map_some, if_pos hs],
                    StdMap.visit_snd_eq_some_iff hq hs⟩)
                · refine .inl ⟨by rw [Option.map_some, if_neg hs], fun hw => hs fun s hs' => ?_⟩
                  rw [hw] at hs'
                  cases hs'
                  exact le_refl _
          · exact .inl ⟨if_neg e, by simp [Ne.symm e]⟩
  | none =>
      by_cases e : p = .cached c.ctx.rcptDomain c.ctx.smtpMail
      · subst e
        cases hq : l.quotas.entry (.cached c.ctx.rcptDomain c.ctx.smtpMail) with
        | none =>
            obtain ⟨hw, he⟩ := step_new ctl h hq
            exact .inr (.inr ⟨rfl, by rw [he, if_pos rfl], ⟨_, _, rfl⟩, hw⟩)
        | some q =>
            obtain ⟨hw, -, he⟩ := step_cached ctl h hq
            exact .inr (.inl ⟨q, rfl, by rw [he, if_pos rfl], hw⟩)
      · left
        cases hq : l.quotas.entry (.cached c.ctx.rcptDomain c.ctx.smtpMail) with
        | none =>
            obtain ⟨hw, he⟩ := step_new ctl h hq
            exact ⟨by rw [he, if_neg e], by rw [hw]; simpa using Ne.symm e⟩
        | some q =>
            obtain ⟨hw, hw', he⟩ := step_cached ctl h hq
            refine ⟨by rw [he, if_neg e], fun hp => ?_⟩
            cases hb : (q.probe c.now).2 with
            | true => rw [hw.mpr hb] at hp; cases hp; exact e rfl
            | false => rw [hw' hb] at hp; cases hp

/-! ### The account of a history -/

/-- The account the ledger keeps of every window, and where a cached pair has its interval and
quota from. -/
structure Inv (ctl : Control) (l : QuotaLedger) : Prop where
  window : ∀ p q, l.quotas.entry p = some q → WindowInv q (l.given p) (l.calls p)
  control : ∀ domain sender q, l.quotas.entry (.cached domain sender) = some q →
    q.interval = ctl.mControlInterval ∧ q.quota = ctl.mControlNumber

theorem Inv.bounded (h : l.Inv ctl) : l.Bounded ctl :=
  ⟨fun p q hq => (h.window p q hq).given_le, h.control⟩

/-- One call keeps the account. -/
theorem step_inv (h : l.Inv ctl) (hf : l.Fits ctl c) : (l.step ctl c).Inv ctl := by
  constructor
  · intro p q' hq'
    have hfew := hf.few p
    simp only [step] at hfew ⊢
    rcases step_entry ctl l c p with ⟨he, hw⟩ | ⟨q, hq, he, hw⟩ | ⟨hn, he, -, hw⟩
    · rw [he] at hq'
      simp only [Started, show (setRealSender ctl c.now l.quotas c.ctx).2.1.entry p = _ from he,
        ne_eq, not_true_eq_false, if_false, if_neg hw, Int.add_zero]
      exact (h.window p q' hq').idle
    · cases he.symm.trans hq'
      have hs : Started l.quotas (setRealSender ctl c.now l.quotas c.ctx).2.1 p ↔
          q.tpoint ≠ (q.refresh c.now).tpoint := by
        simp only [Started, hq, show (setRealSender ctl c.now l.quotas c.ctx).2.1.entry p = _
          from he, Option.map_some, ne_eq, Option.some.injEq, DeliveryQuota.probe_tpoint]
      simp only [hs, hw] at hfew ⊢
      exact (h.window p q hq).probe hfew
    · cases he.symm.trans hq'
      have hs : Started l.quotas (setRealSender ctl c.now l.quotas c.ctx).2.1 p := by
        simp [Started, hn, show (setRealSender ctl c.now l.quotas c.ctx).2.1.entry p = _ from he]
      simp only [if_pos hs, if_pos hw]
      exact .newSender
  · intro domain sender q' hq'
    rcases step_entry ctl l c (.cached domain sender) with
      ⟨he, -⟩ | ⟨q, hq, he, -⟩ | ⟨-, he, -, -⟩
    · exact h.control _ _ _ (he.symm.trans hq')
    · cases he.symm.trans hq'
      rw [q.probe_interval, q.probe_quota]
      exact h.control _ _ _ hq
    · cases he.symm.trans hq'
      exact ⟨rfl, rfl⟩

/-- A candidate is passed over exactly when it is exhausted. -/
theorem probe_candidate (h : l.Inv ctl) (hf : l.Fits ctl c) {p : QuotaPair} {q : DeliveryQuota}
    (hp : p ∈ l.quotas.candidates c.ctx) (hq : l.quotas.entry p = some q) :
    (q.probe c.now).2 = !l.exhausted c.now p := by
  rw [Bool.eq_iff_iff, (h.window p q hq).probe_iff (hf.young p hp q hq), exhausted, hq]
  rw [Bool.not_eq_true', Bool.and_eq_false_iff, not_and_or, beq_eq_false_iff_ne,
    decide_eq_false_iff_not]

/-- The mail goes to the first candidate that is not exhausted. -/
theorem winner_eq (h : l.Inv ctl) (hf : l.Fits ctl c) : l.winner ctl c =
    (l.quotas.candidates c.ctx).find? fun p => !l.exhausted c.now p := by
  have hprobe := fun {p q} => probe_candidate h hf (p := p) (q := q)
  cases hc : l.quotas.configured c.ctx.rcptDomain with
  | some km =>
      obtain ⟨key, m⟩ := km
      have hcand : l.quotas.candidates c.ctx = m.senders.entries.map fun e =>
          QuotaPair.configured key e.1 := by
        rw [Quotas.candidates, hc]
      rw [(step_configured ctl hc).1, hcand, List.find?_map]
      show ((m.senders.visit fun _ => DeliveryQuota.probe c.now).2).map _ = _
      rw [StdMap.visit_snd, Option.map_map]
      congr 1
      refine List.find?_congr fun e he => ?_
      refine hprobe (p := .configured key e.1) ?_ ?_
      · rw [hcand]
        exact List.mem_map_of_mem he
      · rw [Quotas.entry, mem_configured hc, Option.bind_some]
        exact StdMap.find_eq_some_iff.mpr he
  | none =>
      have hcand : l.quotas.candidates c.ctx =
          [.cached c.ctx.rcptDomain c.ctx.smtpMail] := by
        rw [Quotas.candidates, hc]
      rw [hcand]
      cases hq : l.quotas.entry (.cached c.ctx.rcptDomain c.ctx.smtpMail) with
      | none =>
          rw [(step_new ctl hc hq).1, List.find?_cons_of_pos]
          rw [exhausted, hq]; rfl
      | some q =>
          have hb := hprobe (by rw [hcand]; exact List.mem_cons_self) hq
          cases hp : (q.probe c.now).2 with
          | true => rw [(step_cached ctl hc hq).1.mpr hp, List.find?_cons_of_pos (by rw [← hb, hp])]
          | false =>
              rw [(step_cached ctl hc hq).2.1 hp, List.find?_cons_of_neg (by rw [← hb, hp]; decide),
                List.find?_nil]

/-- A call obeys the law. -/
theorem callLaw (h : l.Inv ctl) (hf : l.Fits ctl c) : l.CallLaw ctl c where
  chosen := winner_eq h hf
  kept := by
    intro p q hq
    rcases step_entry ctl l c p with ⟨he, -⟩ | ⟨q', hq', he, -⟩ | ⟨hn, -⟩
    · exact ⟨q, he.trans hq, rfl, rfl⟩
    · cases hq.symm.trans hq'
      exact ⟨_, he, q.probe_interval _, q.probe_quota _⟩
    · cases hq.symm.trans hn
  restarts := by
    intro p q q' hq hq' ht
    rcases step_entry ctl l c p with ⟨he, -⟩ | ⟨q₁, hq₁, he, -⟩ | ⟨hn, -⟩
    · cases hq'.symm.trans (he.trans hq)
      exact absurd rfl ht
    · cases hq.symm.trans hq₁
      cases hq'.symm.trans he
      rcases q.refresh_cases c.now with ⟨hr, -⟩ | ⟨-, h₁⟩
      · rw [DeliveryQuota.probe_tpoint, hr] at ht
        exact absurd rfl ht
      · refine h₁.imp id fun hlt => ?_
        have := q.interval_pos
        unfold intOfDouble at hlt
        split at hlt <;> omega
    · cases hq.symm.trans hn

end QuotaLedger

/-! ### The loaded tables -/

theorem loadDeliveryQuotaLine_number {now : Int} {table : DomainQuotaMap} {line : Text × Text}
    (h : ∀ key m sender q, table.find key = some m → m.senders.find sender = some q →
      q.number = 0) : ∀ key m sender q, (loadDeliveryQuotaLine now table line).find key = some m →
      m.senders.find sender = some q → q.number = 0 := by
  intro key m sender q hm hq
  simp only [loadDeliveryQuotaLine] at hm
  split at hm
  · exact h key m sender q hm hq
  · split at hm
    · rw [StdMap.find_upsert] at hm
      split at hm
      · rename_i e
        subst e
        cases ho : table.find (cut '|' (tolower line.2)).1 with
        | none =>
            rw [ho] at hm
            cases hm
            rw [SenderQuotaMap.find_single] at hq
            split at hq
            · cases hq; rfl
            · cases hq
        | some m₀ =>
            rw [ho] at hm
            cases hm
            simp only [SenderQuotaMap.insert, StdMap.find_upsert] at hq
            split at hq
            · cases hq
              cases hs : m₀.senders.find (tolower line.1) with
              | none => rfl
              | some q₀ => exact h _ m₀ _ q₀ ho hs
            · exact h _ m₀ sender q ho hq
      · exact h key m sender q hm hq
    · exact h key m sender q hm hq

/-- A loaded sender has nothing counted. -/
theorem loadDeliveryQuota_number {now : Int} {conf : List (Text × Text)} {key sender : Text}
    {m : SenderQuotaMap} {q : DeliveryQuota} (hm : (loadDeliveryQuota now conf).find key = some m)
    (hq : m.senders.find sender = some q) : q.number = 0 := by
  have : ∀ (conf : List (Text × Text)) (table : DomainQuotaMap),
      (∀ key m sender q, table.find key = some m → m.senders.find sender = some q →
        q.number = 0) →
      ∀ key m sender q, (conf.foldl (loadDeliveryQuotaLine now) table).find key = some m →
        m.senders.find sender = some q → q.number = 0 := by
    intro conf
    induction conf with
    | nil => exact fun _ h => h
    | cons line conf ih => exact fun table h => ih _ (loadDeliveryQuotaLine_number h)
  exact this conf .empty (fun _ _ _ _ h => by cases h) key m sender q hm hq

theorem QuotaLedger.loaded_inv (ctl : Control) (t₀ : Int) (conf : List (Text × Text)) :
    (QuotaLedger.loaded t₀ conf).Inv ctl where
  window := by
    intro p q hq
    cases p with
    | configured key sender =>
        obtain ⟨m, hm, hq⟩ := Option.bind_eq_some_iff.mp hq
        exact .zero (loadDeliveryQuota_number hm hq)
    | cached domain sender => cases hq
  control := fun _ _ _ h => by cases h

/-- The first call after loading fits. -/
theorem QuotaLedger.loaded_fits (ctl : Control) (t₀ : Int) (conf : List (Text × Text))
    (c : SenderCall) : (QuotaLedger.loaded t₀ conf).Fits ctl c where
  young := by
    intro p _ q hq
    obtain ⟨h₀, h₁, -⟩ := (loaded_inv ctl t₀ conf).window p q hq
    exact .inl (Int.le_antisymm h₁ h₀)
  few := by
    intro p
    show (if _ then (0 : Int) else 0) + 1 < 2 ^ 31
    split <;> decide

/-! ### The law over a history -/

/-- A server answers one call after the other. -/
def quotaStep (ctl : Control) (l : QuotaLedger) (c : SenderCall) (l' : QuotaLedger) : Prop :=
  l' = l.step ctl c

/-- **The sender quota.**  Over every history from loaded tables whose calls all fit, no pair is
given more than its quota in a window, and the next call that fits obeys the law. -/
theorem quota_history_law {ctl : Control} {t₀ : Int} {conf : List (Text × Text)}
    {calls : List SenderCall} {l : QuotaLedger}
    (h : Run (Guarded (QuotaLedger.Fits ctl) (quotaStep ctl)) (.loaded t₀ conf) calls l) :
    l.Bounded ctl ∧ ∀ c, l.Fits ctl c → l.CallLaw ctl c := by
  have hinv : l.Inv ctl := h.invariant
    (fun l c l' hl hs => by rw [hs.2]; exact QuotaLedger.step_inv hl hs.1)
    (QuotaLedger.loaded_inv ctl t₀ conf)
  exact ⟨hinv.bounded, fun c hf => QuotaLedger.callLaw hinv hf⟩

/-- One configured sender, with one mail a minute to `x.com`. -/
def minuteConf : List (Text × Text) := [("a@b.c".toList, "x.com|60|1".toList)]

/-- A cached sender has 20 mails a minute. -/
def minuteControl : Control := ⟨60, 20, by decide, by decide⟩

/-- A call for a recipient in `x.com`. -/
def callFor (now : Int) : SenderCall :=
  ⟨now, { SmtpContext.accepted [] 0 now 0 with rcptDomain := "x.com".toList }⟩

/-- The second mail comes `2^31` seconds after the first, and is refused. -/
theorem quota_history_long_gap : ∃ l, Run (quotaStep minuteControl)
    (.loaded 1000000000 minuteConf) [callFor 1000000000] l ∧
      ¬ l.CallLaw minuteControl (callFor (1000000000 + 2 ^ 31)) := by
  refine ⟨_, .one rfl, fun h => ?_⟩
  have hc := h.chosen
  revert hc
  decide

/-- The minute's mail is given. -/
def firstCall : QuotaLedger :=
  (QuotaLedger.loaded 1000000000 minuteConf).step minuteControl (callFor 1000000000)

theorem firstCall_fits : firstCall.Fits minuteControl (callFor 1000000005) where
  young := by
    have hstart : ∀ p ∈ firstCall.quotas.candidates (callFor 1000000005).ctx,
        ∀ q ∈ firstCall.quotas.entry p, q.tpoint = 1000000000 := by decide
    intro p hp q hq
    right
    rw [hstart p hp q hq]
    decide
  few := by
    intro p
    have hfirst : firstCall.calls p ≤ 1 := by
      show (if _ then (0 : Int) else 0) + 1 ≤ 1
      split <;> decide
    show (if _ then (0 : Int) else firstCall.calls p) + 1 < 2 ^ 31
    split <;> omega

/-- Five seconds later the next mail is refused. -/
theorem quota_history_refusal : firstCall.winner minuteControl (callFor 1000000005) = none ∧
    (firstCall.step minuteControl (callFor 1000000005)).Bounded minuteControl ∧
      ∀ c, (firstCall.step minuteControl (callFor 1000000005)).Fits minuteControl c →
        (firstCall.step minuteControl (callFor 1000000005)).CallLaw minuteControl c :=
  ⟨by decide, quota_history_law ((Run.one ⟨QuotaLedger.loaded_fits _ _ _ _, rfl⟩).trans
    (.one ⟨firstCall_fits, rfl⟩))⟩

end Edm.Smtp

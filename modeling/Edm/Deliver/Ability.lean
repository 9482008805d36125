import Edm.Deliver.Report
import Edm.Support.Decimal
import Edm.Support.Overwrite

/-!
# Deliver — Ability

The second half of `MailListReq`: the ability of each domain is computed from its failures, and the
request for mails is put together in a buffer of `REQ_MSG_MAX_LEN` bytes.

The functions are `none` where a byte behind the buffer is written, or one behind the 32 bytes of
the local `domain`.  An item is written before its length is tested, and then taken back.

* `Sent`: what a request is to look like.
* `Fits`: the items up to the first that does not fit have at most 31 bytes each, and that one
  fills the request up to its last byte.
* `sendRequest_iff`: the request is sent as it should be exactly if they do.
-/

namespace Edm.Deliver.Ability
open Support

/-! ### Abilities -/

/-- The rest of `struct domain_node`: the counters of the window that counts, which one it is, and
the ability of the domain. -/
structure AbilityNode where
  node : DomainNode
  fail_cur : Nat
  total_cur : Nat
  flag_cur : Nat
  ability : Nat
  oriability : Nat

/-- `MUNITE`, `QUATOR`, `HOUR` and `DAY`. -/
def windowOf (flag_cur : Nat) : Option Window :=
  if flag_cur = 109 then some .minute
  else if flag_cur = 113 then some .quarter
  else if flag_cur = 104 then some .hour
  else if flag_cur = 100 then some .day
  else none

namespace AbilityNode

/-- The counters of the window that counts. -/
def setCurrent (n : AbilityNode) : AbilityNode :=
  match windowOf n.flag_cur with
  | none => n
  | some w => { n with fail_cur := n.node.fail w, total_cur := n.node.total w }

/-- The ability by the rate of failures.  The counters are below 2^32, so that the quotients of
doubles compare to 0.3 and 0.7 as the fractions do. -/
def setAbility (n : AbilityNode) : AbilityNode :=
  if n.total_cur ≠ 0 ∧ 7 * n.total_cur ≤ 10 * n.fail_cur then { n with ability := 0 }
  else if n.total_cur ≠ 0 ∧ 3 * n.total_cur < 10 * n.fail_cur then
    { n with ability := n.oriability / 2 }
  else { n with ability := n.oriability }

def update (n : AbilityNode) : AbilityNode := n.setCurrent.setAbility

end AbilityNode

/-! ### The request -/

/-- `"domain=%s&cnt=%d"`. -/
def abilityItem (name : Text) (ability : Nat) : Text :=
  "domain=".toList ++ (cstr name ++ ("&cnt=".toList ++ showInt (int32 ability)))

/-- The request while it is put together: the buffer, the offset of `req` in it, and the two
counters. -/
structure MailReq where
  buffer : Text
  req : Nat
  req_lenth : Nat
  domain_lenth : Nat

/-- The loop over the domains. -/
def addItems : List (Text × AbilityNode) → MailReq →
    Option (List (Text × AbilityNode) × MailReq)
  | [], r => some ([], r)
  | it :: l, r =>
      (put 32 (abilityItem it.1 it.2.update.ability)).bind fun domain =>
      (write r.buffer r.req domain).bind fun buffer =>
        let r₁ : MailReq :=
          { buffer := buffer
            req := r.req + domain.length + 1
            req_lenth := r.req_lenth + domain.length + 1
            domain_lenth := r.domain_lenth }
        if 4092 < r₁.req_lenth then
          some ((it.1, it.2.update) :: l,
            { r₁ with
              req := r₁.req - (domain.length + 1)
              req_lenth := r₁.req_lenth - (domain.length + 1) })
        else
          (addItems l { r₁ with domain_lenth := r₁.domain_lenth + 1 }).map fun lr =>
            ((it.1, it.2.update) :: lr.1, lr.2)

/-- `MailListReq` behind the counting: the domains afterwards, and what is sent.  `MailListRequest`
clears the buffer before. -/
def sendRequest (m_map_domain : StdMap Text AbilityNode) :
    Option (List (Text × AbilityNode) × Text) :=
  (write (List.replicate 4096 nul) 4 (installHead 1)).bind fun buffer =>
  (addItems m_map_domain.entries ⟨buffer, 20, 16, 0⟩).bind fun lr =>
  (write lr.2.buffer 16 (be32 lr.2.domain_lenth)).bind fun buffer =>
  (write buffer 0 (be32 lr.2.req_lenth)).map fun buffer =>
    (lr.1, buffer.take (lr.2.req_lenth + 4))

/-! ### What is to be sent -/

/-- A request: its length, the head, the number of items, and the items, each with its NUL. -/
structure Sent (sent : Text) (items : List Text) : Prop where
  length : ofBe32 sent + 4 = sent.length
  head : (sent.drop 4).take 12 = installHead 1
  count : ofBe32 (sent.drop 16) = items.length
  body : sent.drop 20 = items.flatMap (· ++ [nul])
  complete : ∀ item ∈ items, ∃ name ability, nul ∉ name ∧ nul ∉ item ∧
    item = abilityItem name ability

/-- The bytes of the items, each with its NUL. -/
def itemBytes (items : List Text) : Nat := (items.map fun item => item.length + 1).sum

/-- Behind so many bytes, the items up to the first that does not fit have at most 31 bytes, and
that one leaves no room but for its NUL. -/
def Fits (used : Nat) (items : List Text) : Prop :=
  ∃ kept rest, items = kept ++ rest ∧ used + itemBytes kept ≤ 4092 ∧
    (∀ item ∈ kept, item.length ≤ 31) ∧
    ∀ item ∈ rest.head?, item.length ≤ 31 ∧ used + itemBytes kept + item.length = 4092

/-- The items of the domains, with their new abilities. -/
def itemsOf (l : List (Text × AbilityNode)) : List Text :=
  l.map fun it => abilityItem it.1 it.2.update.ability

theorem fits_nil {used : Nat} : Fits used [] ↔ used ≤ 4092 := by
  constructor
  · rintro ⟨kept, rest, h, hle, -⟩
    omega
  · intro h
    exact ⟨[], [], rfl, h, by simp, by simp⟩

theorem fits_cons {used : Nat} (hused : used ≤ 4092) (item : Text) (items : List Text) :
    Fits used (item :: items) ↔ item.length ≤ 31 ∧
      (used + item.length = 4092 ∨ Fits (used + item.length + 1) items) := by
  constructor
  · rintro ⟨kept, rest, h, hle, hkept, hrest⟩
    cases kept with
    | nil =>
        rw [List.nil_append] at h
        subst h
        obtain ⟨hlen, hfull⟩ := hrest item rfl
        exact ⟨hlen, .inl hfull⟩
    | cons item₁ kept =>
        obtain ⟨rfl, rfl⟩ := List.cons.inj h
        obtain ⟨hlen, hkept⟩ := List.forall_mem_cons.mp hkept
        have hbytes : used + itemBytes (item :: kept)
            = used + item.length + 1 + itemBytes kept := by
          rw [itemBytes, List.map_cons, List.sum_cons, ← itemBytes]
          omega
        rw [hbytes] at hle hrest
        exact ⟨hlen, .inr ⟨kept, rest, rfl, hle, hkept, hrest⟩⟩
  · rintro ⟨hlen, hfull | ⟨kept, rest, rfl, hle, hkept, hrest⟩⟩
    · exact ⟨[], item :: items, rfl, hused, by simp, by simpa [itemBytes] using ⟨hlen, hfull⟩⟩
    · have hbytes : used + itemBytes (item :: kept)
          = used + item.length + 1 + itemBytes kept := by
        rw [itemBytes, List.map_cons, List.sum_cons, ← itemBytes]
        omega
      refine ⟨item :: kept, rest, rfl, hbytes ▸ hle, List.forall_mem_cons.mpr ⟨hlen, hkept⟩, ?_⟩
      rw [hbytes]
      exact hrest

theorem Fits.le {used : Nat} {items : List Text} (h : Fits used items) : used ≤ 4092 := by
  obtain ⟨kept, rest, -, hle, -⟩ := h
  omega

/-! ### Putting the request together -/

/-- The buffer up to the items. -/
def requestHead : Text := List.replicate 4 nul ++ (installHead 1 ++ List.replicate 4 nul)

/-- The bytes of the items. -/
def bodyOf (items : List Text) : Text := items.flatMap (· ++ [nul])

theorem length_bodyOf (items : List Text) : (bodyOf items).length = itemBytes items := by
  induction items with
  | nil => rfl
  | cons item items ih =>
      rw [bodyOf, List.flatMap_cons, ← bodyOf, List.length_append, List.length_append, ih,
        itemBytes, itemBytes, List.map_cons, List.sum_cons]
      rfl

theorem bodyOf_append (items more : List Text) :
    bodyOf (items ++ more) = bodyOf items ++ bodyOf more := List.flatMap_append

theorem itemBytes_append (items more : List Text) :
    itemBytes (items ++ more) = itemBytes items + itemBytes more := by
  rw [itemBytes, List.map_append, List.sum_append]
  rfl

/-- The request holds the items, and `rest` is what follows in the buffer. -/
structure Holds (r : MailReq) (items : List Text) (rest : Text) : Prop where
  req : r.req = r.req_lenth + 4
  req_lenth : r.req_lenth = 16 + itemBytes items
  le : r.req_lenth ≤ 4092
  domain_lenth : r.domain_lenth = items.length
  buffer : r.buffer = requestHead ++ (bodyOf items ++ rest)
  room : rest.length = 4092 - r.req_lenth

/-- What follows is clear. -/
def Holding (r : MailReq) (items : List Text) : Prop :=
  Holds r items (List.replicate (4092 - r.req_lenth) nul)

/-- An item is written where it ends within the buffer. -/
theorem Holding.write {r : MailReq} {items : List Text} (h : Holding r items) (item : Text) :
    Support.write r.buffer r.req item =
      if r.req_lenth + item.length ≤ 4092 then
        some (requestHead ++ (bodyOf items ++ (item ++
          List.replicate (4092 - r.req_lenth - item.length) nul)))
      else none := by
  have hlen : r.buffer.length = 4096 := by
    have hhead : requestHead.length = 20 := by decide
    have := h.req_lenth
    have := h.le
    rw [h.buffer, List.length_append, List.length_append, length_bodyOf, List.length_replicate,
      hhead]
    omega
  have hreq : r.req = (requestHead ++ bodyOf items).length := by
    have hhead : requestHead.length = 20 := by decide
    rw [List.length_append, length_bodyOf, hhead, h.req, h.req_lenth]
    omega
  rw [Support.write, hlen, h.req]
  by_cases hfit : r.req_lenth + item.length ≤ 4092
  · have hsplit : List.replicate (4092 - r.req_lenth) nul = List.replicate item.length nul
        ++ List.replicate (4092 - r.req_lenth - item.length) nul := by
      rw [List.replicate_append_replicate]
      congr 1
      omega
    rw [if_pos (by omega), if_pos hfit, ← h.req, hreq, h.buffer, hsplit, ← List.append_assoc,
      overlay_append List.length_replicate, List.append_assoc]
  · rw [if_neg (by omega), if_neg hfit]

/-- An item that is kept. -/
theorem Holding.keep {r : MailReq} {items : List Text} (h : Holding r items) {item : Text}
    (hfit : r.req_lenth + item.length + 1 ≤ 4092) :
    Holding
      { buffer := requestHead ++ (bodyOf items ++ (item ++
          List.replicate (4092 - r.req_lenth - item.length) nul))
        req := r.req + item.length + 1
        req_lenth := r.req_lenth + item.length + 1
        domain_lenth := r.domain_lenth + 1 } (items ++ [item]) where
  req := by
    have := h.req
    show r.req + item.length + 1 = r.req_lenth + item.length + 1 + 4
    omega
  req_lenth := by
    have := h.req_lenth
    have hone : itemBytes [item] = item.length + 1 := rfl
    rw [itemBytes_append, hone]
    show r.req_lenth + item.length + 1 = 16 + (itemBytes items + (item.length + 1))
    omega
  le := hfit
  domain_lenth := by
    rw [List.length_append, ← h.domain_lenth]
    rfl
  buffer := by
    obtain ⟨k, hk⟩ : ∃ k, 4092 - r.req_lenth - item.length = k + 1 :=
      Nat.exists_eq_succ_of_ne_zero (by omega)
    have hk₁ : 4092 - (r.req_lenth + item.length + 1) = k := by omega
    show requestHead ++ (bodyOf items ++ (item ++ _)) = requestHead ++ (_ ++ _)
    rw [hk, hk₁, bodyOf_append, List.replicate_succ]
    simp [bodyOf]
  room := List.length_replicate

/-- An item that is taken back stays in the buffer behind the request. -/
theorem Holding.takeBack {r : MailReq} {items : List Text} (h : Holding r items) {item : Text}
    (hfull : r.req_lenth + item.length = 4092) {r₁ : MailReq}
    (hbuffer : r₁.buffer = requestHead ++ (bodyOf items ++ (item ++
      List.replicate (4092 - r.req_lenth - item.length) nul))) (hreq : r₁.req = r.req)
    (hlenth : r₁.req_lenth = r.req_lenth) (hcount : r₁.domain_lenth = r.domain_lenth) :
    Holds r₁ items (item ++ List.replicate (4092 - r.req_lenth - item.length) nul) where
  req := by rw [hreq, hlenth, h.req]
  req_lenth := by rw [hlenth, h.req_lenth]
  le := by rw [hlenth]; exact h.le
  domain_lenth := by rw [hcount, h.domain_lenth]
  buffer := hbuffer
  room := by
    rw [List.length_append, List.length_replicate, hlenth]
    omega

/-- The loop ends within the buffers if and only if the items fit, and the request then holds those
up to the first that does not fit. -/
theorem addItems_spec {l : List (Text × AbilityNode)} {r : MailReq} {items : List Text}
    (h : Holding r items) :
    ((addItems l r).isSome = true ↔ Fits r.req_lenth (itemsOf l)) ∧
      ∀ lr, addItems l r = some lr → ∃ more rest, more <+: itemsOf l ∧
        Holds lr.2 (items ++ more) rest := by
  induction l generalizing r items with
  | nil =>
      refine ⟨iff_of_true rfl (fits_nil.mpr h.le), fun lr hlr => ?_⟩
      obtain rfl := Option.some.inj hlr
      exact ⟨[], _, List.nil_prefix, (List.append_nil items).symm ▸ h⟩
  | cons it l ih =>
      have hitems : itemsOf (it :: l) = abilityItem it.1 it.2.update.ability :: itemsOf l := rfl
      rw [addItems, hitems, fits_cons h.le]
      generalize abilityItem it.1 it.2.update.ability = item
      by_cases hlocal : item.length < 32
      · rw [put, if_pos hlocal, Option.bind_some, h.write]
        by_cases hfit : r.req_lenth + item.length ≤ 4092
        · rw [if_pos hfit, Option.bind_some]
          dsimp only
          by_cases hfull : 4092 < r.req_lenth + item.length + 1
          · -- the last byte of the buffer is taken, and the item is taken back
            rw [if_pos hfull]
            refine ⟨iff_of_true rfl ⟨by omega, .inl (by omega)⟩, fun lr hlr => ?_⟩
            obtain rfl := Option.some.inj hlr
            refine ⟨[], item ++ List.replicate (4092 - r.req_lenth - item.length) nul,
              List.nil_prefix, ?_⟩
            rw [List.append_nil]
            exact h.takeBack (by omega) rfl (Nat.add_sub_cancel r.req (item.length + 1))
              (Nat.add_sub_cancel r.req_lenth (item.length + 1)) rfl
          · rw [if_neg hfull, Option.isSome_map]
            obtain ⟨hsome, hspec⟩ := ih (@Holding.keep r items h item (by omega))
            refine ⟨hsome.trans ?_, fun lr hlr => ?_⟩
            · constructor
              · exact fun hfits => ⟨by omega, .inr hfits⟩
              · rintro ⟨-, heq | hfits⟩
                · omega
                · exact hfits
            · obtain ⟨lr₁, hlr₁, rfl⟩ := Option.map_eq_some_iff.mp hlr
              obtain ⟨more, rest, hmore, hholds⟩ := hspec lr₁ hlr₁
              rw [List.append_assoc] at hholds
              exact ⟨item :: more, rest, List.cons_prefix_cons.mpr ⟨rfl, hmore⟩, hholds⟩
        · rw [if_neg hfit]
          refine ⟨iff_of_false Bool.false_ne_true ?_, fun lr hlr => by cases hlr⟩
          rintro ⟨-, heq | hfits⟩
          · omega
          · have := hfits.le
            omega
      · rw [put, if_neg hlocal]
        exact ⟨iff_of_false Bool.false_ne_true fun hitem => by omega, fun lr hlr => by cases hlr⟩

/-! ### The request that is sent -/

theorem length_installHead : (installHead 1).length = 12 := rfl

/-- Bytes are written in the place of as many others. -/
theorem write_append {a m t c : Text} {p : Nat} (hp : p = a.length) (h : m.length = t.length) :
    write (a ++ (m ++ c)) p t = some (a ++ (t ++ c)) := by
  subst hp
  rw [write, if_pos (by simp only [List.length_append]; omega), overlay_append h]

/-- The request holds no item at first. -/
theorem write_installHead :
    ∃ buffer, write (List.replicate 4096 nul) 4 (installHead 1) = some buffer ∧
    Holding ⟨buffer, 20, 16, 0⟩ [] := by
  have hclear : List.replicate 4096 nul
      = List.replicate 4 nul ++ (List.replicate 12 nul ++ List.replicate 4080 nul) := by
    rw [List.replicate_append_replicate, List.replicate_append_replicate]
  have hrest : List.replicate 4080 nul = List.replicate 4 nul ++ List.replicate 4076 nul := by
    rw [List.replicate_append_replicate]
  refine ⟨List.replicate 4 nul ++ (installHead 1 ++ List.replicate 4080 nul), ?_, rfl, rfl,
    by decide, rfl, ?_, List.length_replicate⟩
  · rw [hclear]
    exact write_append rfl rfl
  · show _ = requestHead ++ ([] ++ List.replicate 4076 nul)
    rw [hrest, requestHead, List.nil_append, List.append_assoc, List.append_assoc]

/-- The length and the count are written into the head. -/
theorem Holds.sent {r : MailReq} {items : List Text} {rest : Text} (h : Holds r items rest) :
    ((write r.buffer 16 (be32 r.domain_lenth)).bind fun buffer =>
      (write buffer 0 (be32 r.req_lenth)).map fun buffer => buffer.take (r.req_lenth + 4)) =
    some (be32 r.req_lenth ++ (installHead 1 ++ (be32 r.domain_lenth ++ bodyOf items))) := by
  have hbuffer : r.buffer = (List.replicate 4 nul ++ installHead 1) ++
      (List.replicate 4 nul ++ (bodyOf items ++ rest)) := by
    rw [h.buffer, requestHead]
    simp only [List.append_assoc]
  have hcount : write ((List.replicate 4 nul ++ installHead 1) ++
      (List.replicate 4 nul ++ (bodyOf items ++ rest))) 16 (be32 r.domain_lenth)
      = some ((List.replicate 4 nul ++ installHead 1) ++
        (be32 r.domain_lenth ++ (bodyOf items ++ rest))) := write_append rfl rfl
  have hfront : (List.replicate 4 nul ++ installHead 1) ++ (be32 r.domain_lenth ++
      (bodyOf items ++ rest)) = [] ++ (List.replicate 4 nul ++ (installHead 1 ++
        (be32 r.domain_lenth ++ (bodyOf items ++ rest)))) := by
    rw [List.nil_append, List.append_assoc]
  have hlength : write ([] ++ (List.replicate 4 nul ++ (installHead 1 ++
        (be32 r.domain_lenth ++ (bodyOf items ++ rest))))) 0 (be32 r.req_lenth)
      = some ([] ++ (be32 r.req_lenth ++ (installHead 1 ++
        (be32 r.domain_lenth ++ (bodyOf items ++ rest))))) := write_append rfl rfl
  have hsent :
      be32 r.req_lenth ++ (installHead 1 ++ (be32 r.domain_lenth ++ (bodyOf items ++ rest)))
      = (be32 r.req_lenth ++ (installHead 1 ++ (be32 r.domain_lenth ++ bodyOf items))) ++ rest := by
    simp only [List.append_assoc]
  have hlen : (be32 r.req_lenth ++ (installHead 1 ++ (be32 r.domain_lenth ++ bodyOf items))).length
      = r.req_lenth + 4 := by
    simp only [List.length_append, length_be32, length_installHead, length_bodyOf]
    have := h.req_lenth
    omega
  rw [hbuffer, hcount, Option.bind_some, hfront, hlength, Option.map_some, List.nil_append, hsent,
    ← hlen, List.take_left]

theorem length_le_itemBytes (items : List Text) : items.length ≤ itemBytes items := by
  induction items with
  | nil => exact Nat.zero_le _
  | cons item items ih =>
      rw [itemBytes, List.map_cons, List.sum_cons, ← itemBytes, List.length_cons]
      omega

theorem sent_of_items {items : List Text} (hle : 16 + itemBytes items ≤ 4092)
    (hitems : ∀ item ∈ items, ∃ name ability, nul ∉ name ∧ nul ∉ item ∧
      item = abilityItem name ability) :
    Sent (be32 (16 + itemBytes items : Nat) ++ (installHead 1 ++
      (be32 (items.length : Nat) ++ bodyOf items))) items where
  length := by
    rw [ofBe32_append, int32_of_range (by omega) (by omega)]
    simp only [List.length_append, length_be32, length_installHead, length_bodyOf]
    omega
  head := rfl
  count := by
    have hcount := length_le_itemBytes items
    have hdrop : (be32 (16 + itemBytes items : Nat) ++ (installHead 1 ++
        (be32 (items.length : Nat) ++ bodyOf items))).drop 16
        = be32 (items.length : Nat) ++ bodyOf items := rfl
    rw [hdrop, ofBe32_append, int32_of_range (by omega) (by omega)]
  body := rfl
  complete := hitems

theorem abilityItem_cstr (name : Text) (ability : Nat) :
    abilityItem (cstr name) ability = abilityItem name ability := by
  unfold abilityItem
  rw [cstr_self (nul_not_mem_cstr name)]

theorem nul_not_mem_abilityItem (name : Text) (ability : Nat) :
    nul ∉ abilityItem name ability := by
  have hshow : nul ∉ showInt (int32 ability) := not_mem_showInt (by decide) (by decide) _
  unfold abilityItem
  simp only [List.mem_append, not_or]
  exact ⟨by decide, nul_not_mem_cstr name, by decide, hshow⟩

theorem mem_itemsOf {l : List (Text × AbilityNode)} {item : Text} (h : item ∈ itemsOf l) :
    ∃ name ability, nul ∉ name ∧ nul ∉ item ∧ item = abilityItem name ability := by
  obtain ⟨it, -, hitem⟩ := List.mem_map.mp h
  rw [← hitem]
  exact ⟨cstr it.1, _, nul_not_mem_cstr it.1, nul_not_mem_abilityItem _ _,
    (abilityItem_cstr _ _).symm⟩

/-- A request that is put together within its buffers. -/
theorem fits_of_sendRequest {m_map_domain : StdMap Text AbilityNode}
    {s : List (Text × AbilityNode) × Text} (h : sendRequest m_map_domain = some s) :
    Fits 16 (itemsOf m_map_domain.entries) := by
  obtain ⟨buffer, hbuffer, hholding⟩ := write_installHead
  rw [sendRequest, hbuffer, Option.bind_some] at h
  obtain ⟨lr, hlr, -⟩ := Option.bind_eq_some_iff.mp h
  exact (addItems_spec hholding).1.mp (Option.isSome_of_eq_some hlr)

theorem sent_of_fits {m_map_domain : StdMap Text AbilityNode}
    (h : Fits 16 (itemsOf m_map_domain.entries)) :
    ∃ l sent items, sendRequest m_map_domain = some (l, sent) ∧ Sent sent items ∧
      items <+: itemsOf m_map_domain.entries := by
  obtain ⟨buffer, hbuffer, hholding⟩ := write_installHead
  obtain ⟨hsome, hspec⟩ := addItems_spec (l := m_map_domain.entries) hholding
  obtain ⟨lr, hlr⟩ := Option.isSome_iff_exists.mp (hsome.mpr h)
  obtain ⟨items, rest, hitems, hholds⟩ := hspec lr hlr
  rw [List.nil_append] at hholds
  have hsent : sendRequest m_map_domain = some (lr.1, be32 lr.2.req_lenth ++ (installHead 1 ++
      (be32 lr.2.domain_lenth ++ bodyOf items))) := by
    obtain ⟨buffer₁, hcount, hlength⟩ := Option.bind_eq_some_iff.mp hholds.sent
    obtain ⟨buffer₂, hbuffer₂, htake⟩ := Option.map_eq_some_iff.mp hlength
    rw [sendRequest, hbuffer, Option.bind_some, hlr, Option.bind_some, hcount, Option.bind_some,
      hbuffer₂, Option.map_some, htake]
  have hle := hholds.le
  rw [hholds.req_lenth] at hsent hle
  rw [hholds.domain_lenth] at hsent
  exact ⟨lr.1, _, items, hsent, sent_of_items hle fun item hitem =>
    mem_itemsOf (hitems.subset hitem), hitems⟩

/-- The request is put together within its buffers, and is what it should be, if and only if the
items fit. -/
theorem sendRequest_iff (m_map_domain : StdMap Text AbilityNode) :
    (∃ l sent items, sendRequest m_map_domain = some (l, sent) ∧ Sent sent items ∧
      items <+: itemsOf m_map_domain.entries) ↔ Fits 16 (itemsOf m_map_domain.entries) :=
  ⟨fun ⟨_, _, _, hsent, _, _⟩ => fits_of_sendRequest hsent, sent_of_fits⟩

/-- A domain whose failures are counted by the day. -/
def plainNode : AbilityNode := ⟨.zero, 0, 0, 100, 10, 10⟩

/-- A name for which `domain[32]` is too short. -/
def longDomains : StdMap Text AbilityNode :=
  StdMap.empty.set "mail.example.com.cn".toList plainNode

theorem not_sent_long : ¬ ∀ m_map_domain : StdMap Text AbilityNode,
    ∃ l sent items, sendRequest m_map_domain = some (l, sent) ∧ Sent sent items ∧
      items <+: itemsOf m_map_domain.entries := by
  intro h
  obtain ⟨l, sent, items, hsent, -⟩ := h longDomains
  have hfits := fits_of_sendRequest hsent
  have hitems : itemsOf longDomains.entries = ["domain=mail.example.com.cn&cnt=10".toList] := by
    decide +kernel
  rw [hitems, fits_cons (by decide)] at hfits
  exact absurd hfits.1 (by decide)

end Edm.Deliver.Ability

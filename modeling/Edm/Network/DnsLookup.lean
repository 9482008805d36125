import Edm.Network.IPRangeMap

/-!
# Network — DnsLookup

`DNSResolver::parseDNSReply` (`cpplib/network/dnslookup.cpp`), which takes the records out of a
reply.  `dn_expand` belongs to the resolver library: it is a parameter, of which only is taken that
a name ends in the message and fits its buffer (`DnExpand`).

* `answersFrom`: the answers that stand in a reply completely, whatever is made of them.
* `getDNSReocrdEntry_spec`, `answerLoop_spec`: one answer, and all of them.
* **Two kinds of answers are read over the end of the reply**: a TXT answer behind which nothing
  stands (its length byte is skipped, and as many bytes are copied as the answer has), and an MX
  answer of less than two bytes.  A reply that breaks off is a failure even if records were added
  (`inside_iff`).
-/

namespace Edm.Network
open Support

/-! ### Host names -/

/-- The loop of `GlobalFunc::isValidHostName`. -/
def hostNameLoop (bDashChar : Bool) (nLabelSize nLabelCount : Nat) : Text → Bool
  | [] => nLabelCount > 0 && nLabelSize != 0 && !bDashChar
  | ch :: s =>
      if ch.isAlphanum ∨ ch = '_' ∨ ch = '-' then
        if (ch = '-' ∧ nLabelSize + 1 = 1) ∨ nLabelSize + 1 > 63 then false
        else hostNameLoop (ch == '-') (nLabelSize + 1) nLabelCount s
      else if ch = '.' then
        if bDashChar ∨ nLabelSize = 0 then false
        else hostNameLoop bDashChar 0 (nLabelCount + 1) s
      else false

/-- `isValidHostName`, of a C string. -/
def isValidHostName (lpszHostName : Text) : Bool :=
  if lpszHostName.length = 0 ∨ lpszHostName.length > 255 then false
  else hostNameLoop false 0 0 lpszHostName

/-- `isValidHostAddr`. -/
def isValidHostAddr (lpszHostAddr : Text) : Bool := (getIPV4Integer lpszHostAddr).isSome

/-! ### The code -/

/-- `dn_expand`.  In a message, a name is expanded at an offset, into a buffer of so many bytes; if
it can be, the result tells how many bytes the name takes in the message, and what it is. -/
structure DnExpand where
  expand : List UInt8 → Nat → Nat → Option (Nat × Text)
  inside : ∀ {msg pos size n name}, expand msg pos size = some (n, name) → pos + n ≤ msg.length
  fits : ∀ {msg pos size n name}, expand msg pos size = some (n, name) → name.length < size

/-- `DNSRecordEntry`. -/
structure DNSRecordEntry where
  recordType : Nat
  recordClass : Nat
  timeToLive : Nat
  recordName : Text
  recordResult : Text
  mxPreference : Nat

/-- `DNSRecord`. -/
structure DNSRecord where
  nMinTimeToLive : Nat
  listDNSEntry : List DNSRecordEntry

/-- `DNSRecord::addEntry`. -/
def DNSRecord.addEntry (dnsRecord : DNSRecord) (dnsEntry : DNSRecordEntry) : DNSRecord where
  nMinTimeToLive :=
    if dnsRecord.listDNSEntry = [] ∨ dnsEntry.timeToLive < dnsRecord.nMinTimeToLive then
      dnsEntry.timeToLive
    else dnsRecord.nMinTimeToLive
  listDNSEntry := dnsRecord.listDNSEntry ++ [dnsEntry]

/-- `DNSLookupRetCode`, as far as a reply tells it. -/
inductive DNSLookupRetCode where
  | ok
  | fail
  | notFound
  deriving DecidableEq

/-- `T_A`, `T_PTR`, `T_MX`, `T_TXT`, `T_ANY` and `C_IN`. -/
def typeA : Nat := 1
def typePTR : Nat := 12
def typeMX : Nat := 15
def typeTXT : Nat := 16
def typeANY : Nat := 255
def classIN : Nat := 1

/-- `DNS_DOMAIN_NAME_LEN`. -/
def domainNameLen : Nat := 1024

/-- `DNS_TXT_RR_MAX_LEN`. -/
def txtRRMaxLen : Nat := 65536

/-- `getRRNameMaxLen`. -/
def getRRNameMaxLen (nDNSRecordType : Nat) : Nat :=
  if nDNSRecordType = typeTXT then txtRRMaxLen else domainNameLen

/-- `GETSHORT`; there is no result when it reads behind the end. -/
def getShort (pBuffer : List UInt8) (pos : Nat) : Option Nat :=
  pBuffer[pos]?.bind fun b₀ => pBuffer[pos + 1]?.map fun b₁ => b₀.toNat * 256 + b₁.toNat

/-- `GETLONG`. -/
def getLong (pBuffer : List UInt8) (pos : Nat) : Option Nat :=
  (getShort pBuffer pos).bind fun n => (getShort pBuffer (pos + 2)).map fun m => n * 65536 + m

/-- `FormatString("%.%.%.%")` with four bytes. -/
def formatIPV4 (b₀ b₁ b₂ b₃ : UInt8) : Text :=
  showInt b₀.toNat ++ '.' :: (showInt b₁.toNat ++ '.' :: (showInt b₂.toNat ++
    '.' :: showInt b₃.toNat))

/-- A byte of a TXT record, or a blank if it is not printed. -/
def printChar (b : UInt8) : Char := if 32 ≤ b ∧ b < 127 then Char.ofNat b.toNat else ' '

/-- The loop that copies a TXT record, from the offset `pos` to the offset `i` of a buffer of `size`
bytes, and the NUL that is put behind it. -/
def copyText (pBuffer : List UInt8) (size : Nat) : Nat → Nat → Nat → Option Text
  | 0, _, i => if i < size then some [] else none
  | n + 1, pos, i =>
      pBuffer[pos]?.bind fun b =>
        if i < size then (copyText pBuffer size n (pos + 1) (i + 1)).map (printChar b :: ·)
        else none

section Code
variable (dn : DnExpand) (pBuffer : List UInt8)

/-- `expandDomainName`: where the name ends, and what it is; or NULL. -/
def expandDomainName (pos nExpandDomainLen : Nat) : Option (Nat × Text) :=
  if pos ≥ pBuffer.length then none
  else (dn.expand pBuffer pos nExpandDomainLen).map fun p => (pos + p.1, p.2)

/-- `getDNSReocrdEntry` from the name of a PTR or an MX record on. -/
def getNameEntry (pos : Nat) (dnsEntry : DNSRecordEntry) : Bool × DNSRecordEntry :=
  match expandDomainName dn pBuffer pos (getRRNameMaxLen dnsEntry.recordType) with
  | none => (false, dnsEntry)
  | some (_, auRRName) =>
      if dnsEntry.recordType = typeMX ∧ ¬ isValidHostAddr auRRName ∧ ¬ isValidHostName auRRName then
        (false, dnsEntry)
      else (true, { dnsEntry with recordResult := auRRName })

/-- `getDNSReocrdEntry`. -/
def getDNSReocrdEntry (pos nLength : Nat) (dnsEntry : DNSRecordEntry) :
    Option (Bool × DNSRecordEntry) :=
  if pos + nLength > pBuffer.length then some (false, dnsEntry)
  else
    let nDNSType := dnsEntry.recordType
    let nRRNameMaxLen := getRRNameMaxLen dnsEntry.recordType
    if nDNSType = typeA then
      if nLength ≠ 4 ∨ nLength > nRRNameMaxLen then some (false, dnsEntry)
      else
        pBuffer[pos]?.bind fun b₀ => pBuffer[pos + 1]?.bind fun b₁ =>
          pBuffer[pos + 2]?.bind fun b₂ => pBuffer[pos + 3]?.map fun b₃ =>
            (true, { dnsEntry with recordResult := formatIPV4 b₀ b₁ b₂ b₃ })
    else if nDNSType ≠ typeMX ∧ nDNSType ≠ typePTR ∧ nDNSType ≠ typeTXT then
      some (false, dnsEntry)
    else if nDNSType = typeTXT then
      (copyText pBuffer nRRNameMaxLen (min nLength nRRNameMaxLen) (pos + 1) 0).map fun s =>
        (true, { dnsEntry with recordResult := s })
    else if nDNSType = typeMX then
      (getShort pBuffer pos).map fun nPreference =>
        getNameEntry dn pBuffer (pos + 2) { dnsEntry with mxPreference := nPreference }
    else some (getNameEntry dn pBuffer pos dnsEntry)

/-- The first loop of `parseDNSReply`, over the queries. -/
def queryLoop : Nat → Nat → Option Nat
  | 0, pos => some pos
  | nQueryCount + 1, pos =>
      (expandDomainName dn pBuffer pos domainNameLen).bind fun p => queryLoop nQueryCount (p.1 + 4)

/-- The second loop, over the answers. -/
def answerLoop : Nat → Nat → DNSLookupRetCode → DNSRecordEntry → DNSRecord →
    Option (DNSLookupRetCode × DNSRecord)
  | 0, _, nDNSLookupRetCode, _, dnsRecord => some (nDNSLookupRetCode, dnsRecord)
  | nAnswerCount + 1, pos, nDNSLookupRetCode, dnsEntry, dnsRecord =>
      match expandDomainName dn pBuffer pos domainNameLen with
      | none => some (.fail, dnsRecord)
      | some (pos, auDomainName) =>
          if pos + 10 > pBuffer.length then some (.fail, dnsRecord)
          else
            (getShort pBuffer pos).bind fun nDNSReplyType =>
            (getShort pBuffer (pos + 2)).bind fun nRecordClass =>
            (getLong pBuffer (pos + 4)).bind fun nTimeToLive =>
            (getShort pBuffer (pos + 8)).bind fun nLength =>
              let pos := pos + 10
              if pos + nLength > pBuffer.length then some (.fail, dnsRecord)
              else
                let dnsEntry := { dnsEntry with
                  recordType := nDNSReplyType
                  recordClass := nRecordClass
                  timeToLive := nTimeToLive
                  recordName := auDomainName }
                (getDNSReocrdEntry dn pBuffer pos nLength dnsEntry).bind fun
                  | (true, dnsEntry) =>
                      answerLoop nAnswerCount (pos + nLength) .ok dnsEntry
                        (dnsRecord.addEntry dnsEntry)
                  | (false, dnsEntry) =>
                      answerLoop nAnswerCount (pos + nLength) nDNSLookupRetCode dnsEntry dnsRecord

/-- `parseDNSReply`.  `qdcount` and `ancount` are the fifth and the seventh byte of the header and
the bytes behind them. -/
def parseDNSReply (dnsRecord : DNSRecord) : Option (DNSLookupRetCode × DNSRecord) :=
  (getShort pBuffer 4).bind fun qdcount =>
    match queryLoop dn pBuffer qdcount 12 with
    | none => some (.fail, dnsRecord)
    | some pos =>
        (getShort pBuffer 6).bind fun ancount =>
          answerLoop dn pBuffer ancount pos .notFound ⟨typeANY, classIN, 0, [], [], 10⟩ dnsRecord

end Code

/-! ### What stands in a reply -/

/-- Two bytes at an offset. -/
def short (reply : List UInt8) (i : Nat) : Nat :=
  (reply.getD i 0).toNat * 256 + (reply.getD (i + 1) 0).toNat

/-- An answer: its name, the fields behind it, and where its data stand. -/
structure Answer where
  name : Text
  type : Nat
  class_ : Nat
  ttl : Nat
  data : Nat
  length : Nat

section Reply
variable (dn : DnExpand) (reply : List UInt8)

/-- The answer whose name is at an offset, if all of it stands in the reply. -/
def answerAt (pos : Nat) : Option Answer :=
  (expandDomainName dn reply pos domainNameLen).bind fun (p, name) =>
    if p + 10 ≤ reply.length ∧ p + 10 + short reply (p + 8) ≤ reply.length then
      some ⟨name, short reply p, short reply (p + 2),
        short reply (p + 4) * 65536 + short reply (p + 6), p + 10, short reply (p + 8)⟩
    else none

/-- As many answers behind one another, as far as they stand in the reply, and whether they all
do. -/
def answersFrom : Nat → Nat → List Answer × Bool
  | 0, _ => ([], true)
  | n + 1, pos =>
      match answerAt dn reply pos with
      | none => ([], false)
      | some a =>
          (a :: (answersFrom n (a.data + a.length)).1, (answersFrom n (a.data + a.length)).2)

/-- The answers of a reply: there is none if its queries cannot be read. -/
def answers : List Answer × Bool :=
  match queryLoop dn reply (short reply 4) 12 with
  | none => ([], false)
  | some pos => answersFrom dn reply (short reply 6) pos

/-- What an answer says, if a record is made of it. -/
def Answer.content (a : Answer) : Option Text :=
  if a.type = typeA then
    if a.length = 4 then
      some (formatIPV4 (reply.getD a.data 0) (reply.getD (a.data + 1) 0) (reply.getD (a.data + 2) 0)
        (reply.getD (a.data + 3) 0))
    else none
  else if a.type = typeTXT then some (((reply.drop (a.data + 1)).take a.length).map printChar)
  else if a.type = typePTR then (expandDomainName dn reply a.data domainNameLen).map (·.2)
  else if a.type = typeMX then
    ((expandDomainName dn reply (a.data + 2) domainNameLen).map (·.2)).filter fun host =>
      isValidHostAddr host || isValidHostName host
  else none

/-- The data that are read for an answer go over the end of the reply. -/
def Answer.ReadsOver (a : Answer) : Prop :=
  (a.type = typeTXT ∧ 0 < a.length ∧ a.data + a.length = reply.length)
    ∨ (a.type = typeMX ∧ reply.length < a.data + 2)

/-- An entry with the name and the fields of an answer. -/
structure DNSRecordEntry.Heads (e : DNSRecordEntry) (a : Answer) : Prop where
  type : e.recordType = a.type
  class_ : e.recordClass = a.class_
  ttl : e.timeToLive = a.ttl
  name : e.recordName = a.name

/-- The record of an answer. -/
structure DNSRecordEntry.Of (e : DNSRecordEntry) (a : Answer) : Prop extends e.Heads a where
  content : a.content dn reply = some e.recordResult
  preference : a.type = typeMX → e.mxPreference = short reply a.data

/-- The parser reads no byte behind the reply, and says that it was successful if and only if it
added a record; every record that it added is that of an answer of the reply. -/
def ParsesInside (dnsRecord : DNSRecord) : Prop :=
  ∃ nRet dnsRecord' added, parseDNSReply dn reply dnsRecord = some (nRet, dnsRecord')
    ∧ dnsRecord'.listDNSEntry = dnsRecord.listDNSEntry ++ added
    ∧ (nRet = .ok ↔ added ≠ [])
    ∧ ∀ e ∈ added, ∃ a ∈ (answers dn reply).1, a.data + a.length ≤ reply.length ∧ e.Of dn reply a

end Reply

/-! ### Reading bytes -/

section Read
variable {reply : List UInt8} {i n pos size : Nat}

theorem getElem?_eq_getD (h : i < reply.length) : reply[i]? = some (reply.getD i 0) := by
  rw [List.getD_eq_getElem?_getD, List.getElem?_eq_getElem h]
  rfl

theorem getShort_eq (h : i + 2 ≤ reply.length) : getShort reply i = some (short reply i) := by
  rw [getShort, getElem?_eq_getD (by omega), getElem?_eq_getD (by omega)]
  rfl

theorem getShort_eq_none (h : reply.length < i + 2) : getShort reply i = none := by
  rw [getShort, Option.bind_eq_none_iff]
  intro b₀ _
  rw [List.getElem?_eq_none (by omega)]
  rfl

theorem short_lt (reply : List UInt8) (i : Nat) : short reply i < 65536 := by
  have h₀ := (reply.getD i 0).toNat_lt
  have h₁ := (reply.getD (i + 1) 0).toNat_lt
  rw [short]
  omega

theorem getLong_eq (h : i + 4 ≤ reply.length) :
    getLong reply i = some (short reply i * 65536 + short reply (i + 2)) := by
  rw [getLong, getShort_eq (by omega), getShort_eq (by omega)]
  rfl

/-- A text that stands in the reply is copied. -/
theorem copyText_eq (hpos : pos + n ≤ reply.length) (hi : i + n < size) :
    copyText reply size n pos i = some (((reply.drop pos).take n).map printChar) := by
  induction n generalizing pos i with
  | zero =>
      rw [copyText, if_pos (by omega), List.take_zero]
      rfl
  | succ n ih =>
      have hlt : pos < reply.length := by omega
      rw [copyText, List.getElem?_eq_getElem hlt, Option.bind_some, if_pos (by omega),
        ih (by omega) (by omega), List.drop_eq_getElem_cons hlt, List.take_succ_cons,
        List.map_cons, Option.map_some]

/-- The copy runs over the end. -/
theorem copyText_eq_none (hn : 0 < n) (hpos : reply.length < pos + n) :
    copyText reply size n pos i = none := by
  induction n generalizing pos i with
  | zero => exact absurd hn (Nat.lt_irrefl 0)
  | succ n ih =>
      rw [copyText, Option.bind_eq_none_iff]
      intro b hb
      have hlt := (List.getElem?_eq_some_iff.mp hb).1
      rw [ih (by omega) (by omega)]
      exact ite_self _

end Read

/-! ### One answer -/

section One
variable {dn : DnExpand} {reply : List UInt8} {a : Answer} {e : DNSRecordEntry} {pos : Nat}

theorem DNSRecordEntry.Heads.withResult (h : e.Heads a) (s : Text) :
    Heads { e with recordResult := s } a := ⟨h.type, h.class_, h.ttl, h.name⟩

/-- What an entry becomes: it has a result if there is one. -/
def DNSRecordEntry.result (e : DNSRecordEntry) : Option Text → Bool × DNSRecordEntry
  | none => (false, e)
  | some s => (true, { e with recordResult := s })

theorem getNameEntry_ptr (h : e.recordType = typePTR) :
    getNameEntry dn reply pos e =
      e.result ((expandDomainName dn reply pos domainNameLen).map (·.2)) := by
  have hmax : getRRNameMaxLen e.recordType = domainNameLen := by rw [h]; rfl
  rw [getNameEntry, hmax]
  cases expandDomainName dn reply pos domainNameLen with
  | none => rfl
  | some p => exact if_neg fun hmx => absurd (h.symm.trans hmx.1) (by decide)

theorem getNameEntry_mx (h : e.recordType = typeMX) :
    getNameEntry dn reply pos e =
      e.result (((expandDomainName dn reply pos domainNameLen).map (·.2)).filter fun host =>
        isValidHostAddr host || isValidHostName host) := by
  have hmax : getRRNameMaxLen e.recordType = domainNameLen := by rw [h]; rfl
  rw [getNameEntry, hmax]
  cases expandDomainName dn reply pos domainNameLen with
  | none => rfl
  | some p =>
      dsimp only
      rw [Option.map_some, Option.filter_some]
      by_cases hvalid : isValidHostAddr p.2 = true ∨ isValidHostName p.2 = true
      · rw [if_neg fun hmx => hvalid.elim hmx.2.1 hmx.2.2,
          if_pos (Bool.or_eq_true_iff.mpr hvalid)]
        rfl
      · rw [if_pos ⟨h, not_or.mp hvalid⟩, if_neg (mt Bool.or_eq_true_iff.mp hvalid)]
        rfl

/-- What one answer is made of: nothing, if its data are read over the end of the reply. -/
theorem getDNSReocrdEntry_spec (hin : a.data + a.length ≤ reply.length) (hlen : a.length < 65536)
    (he : e.Heads a) :
    (a.ReadsOver reply → getDNSReocrdEntry dn reply a.data a.length e = none)
    ∧ (¬ a.ReadsOver reply → ∃ e' : DNSRecordEntry, e'.Heads a
      ∧ (a.type = typeMX → e'.mxPreference = short reply a.data)
      ∧ getDNSReocrdEntry dn reply a.data a.length e = some (e'.result (a.content dn reply))) := by
  rw [getDNSReocrdEntry, if_neg (Nat.not_lt.mpr hin)]
  dsimp only
  rw [Answer.ReadsOver, Answer.content, ← he.type]
  by_cases hA : e.recordType = typeA
  · have hTXT : e.recordType ≠ typeTXT := by rw [hA]; decide
    have hMX : e.recordType ≠ typeMX := by rw [hA]; decide
    have hmax : ¬ 4 > getRRNameMaxLen e.recordType := by rw [hA]; decide
    rw [if_pos hA, if_pos hA]
    refine ⟨fun h => (h.elim (fun h => hTXT h.1) fun h => hMX h.1).elim, fun _ =>
      ⟨e, he, fun h => absurd h hMX, ?_⟩⟩
    by_cases h₄ : a.length = 4
    · rw [h₄, if_neg (not_or.mpr ⟨fun h => h rfl, hmax⟩), if_pos rfl,
        getElem?_eq_getD (by omega), getElem?_eq_getD (by omega), getElem?_eq_getD (by omega),
        getElem?_eq_getD (by omega)]
      rfl
    · rw [if_pos (.inl h₄), if_neg h₄]
      rfl
  rw [if_neg hA, if_neg hA]
  by_cases hTXT : e.recordType = typeTXT
  · have hMX : e.recordType ≠ typeMX := by rw [hTXT]; decide
    have hmax : getRRNameMaxLen e.recordType = 65536 := by rw [hTXT]; rfl
    rw [if_neg fun h => h.2.2 hTXT, if_pos hTXT, if_pos hTXT, hmax,
      Nat.min_eq_left (Nat.le_of_lt hlen)]
    by_cases hover : 0 < a.length ∧ a.data + a.length = reply.length
    · rw [copyText_eq_none hover.1 (by omega)]
      exact ⟨fun _ => rfl, fun h => absurd (.inl ⟨hTXT, hover⟩) h⟩
    · refine ⟨fun h => (h.elim (fun h => hover h.2) fun h => hMX h.1).elim, fun _ =>
        ⟨e, he, fun h => absurd h hMX, ?_⟩⟩
      by_cases hzero : a.length = 0
      · rw [hzero, copyText, if_pos (by decide)]
        rfl
      · rw [copyText_eq (by omega) (by omega)]
        rfl
  rw [if_neg hTXT, if_neg hTXT]
  by_cases hPTR : e.recordType = typePTR
  · have hMX : e.recordType ≠ typeMX := by rw [hPTR]; decide
    rw [if_neg fun h => h.2.1 hPTR, if_neg hMX, if_pos hPTR, getNameEntry_ptr hPTR]
    exact ⟨fun h => (h.elim (fun h => hTXT h.1) fun h => hMX h.1).elim, fun _ =>
      ⟨e, he, fun h => absurd h hMX, rfl⟩⟩
  rw [if_neg hPTR]
  by_cases hMX : e.recordType = typeMX
  · rw [if_neg fun h => h.1 hMX, if_pos hMX, if_pos hMX]
    by_cases hover : reply.length < a.data + 2
    · rw [getShort_eq_none hover]
      exact ⟨fun _ => rfl, fun h => absurd (.inr ⟨hMX, hover⟩) h⟩
    · have hMX' : { e with mxPreference := short reply a.data }.recordType = typeMX := hMX
      rw [getShort_eq (Nat.not_lt.mp hover), Option.map_some, getNameEntry_mx hMX']
      exact ⟨fun h => (h.elim (fun h => hTXT h.1) fun h => hover h.2).elim, fun _ =>
        ⟨{ e with mxPreference := short reply a.data }, ⟨he.type, he.class_, he.ttl, he.name⟩,
          fun _ => rfl, rfl⟩⟩
  · rw [if_pos ⟨hMX, hPTR, hTXT⟩, if_neg hMX]
    exact ⟨fun h => (h.elim (fun h => hTXT h.1) fun h => hMX h.1).elim, fun _ =>
      ⟨e, he, fun h => absurd h hMX, rfl⟩⟩

/-- The answer at an offset stands in the reply. -/
theorem answerAt_inside (h : answerAt dn reply pos = some a) :
    a.data + a.length ≤ reply.length ∧ a.length < 65536 := by
  obtain ⟨p, -, hp⟩ := Option.bind_eq_some_iff.mp h
  obtain ⟨hin, ha⟩ := Option.ite_none_right_eq_some.mp hp
  cases Option.some.inj ha
  exact ⟨hin.2, short_lt _ _⟩

end One

/-! ### All answers -/

section All
variable {dn : DnExpand} {reply : List UInt8} {a : Answer} {e : DNSRecordEntry} {n pos : Nat}
  {nRet : DNSLookupRetCode} {dnsRecord : DNSRecord}

/-- What the loop does behind an answer. -/
def afterAnswer (dn : DnExpand) (reply : List UInt8) (n : Nat) (a : Answer)
    (nRet : DNSLookupRetCode) (dnsRecord : DNSRecord) (p : Bool × DNSRecordEntry) :
    Option (DNSLookupRetCode × DNSRecord) :=
  if p.1 then answerLoop dn reply n (a.data + a.length) .ok p.2 (dnsRecord.addEntry p.2)
  else answerLoop dn reply n (a.data + a.length) nRet p.2 dnsRecord

/-- An answer that does not stand in the reply is a failure. -/
theorem answerLoop_none (h : answerAt dn reply pos = none) :
    answerLoop dn reply (n + 1) pos nRet e dnsRecord = some (.fail, dnsRecord) := by
  rw [answerLoop]
  rw [answerAt] at h
  cases hname : expandDomainName dn reply pos domainNameLen with
  | none => rfl
  | some p =>
      obtain ⟨p, name⟩ := p
      rw [hname, Option.bind_some] at h
      dsimp only at h ⊢
      by_cases hfix : p + 10 ≤ reply.length
      · have hover : ¬ p + 10 + short reply (p + 8) ≤ reply.length := fun hle => by
          rw [if_pos ⟨hfix, hle⟩] at h
          cases h
        rw [if_neg (Nat.not_lt.mpr hfix), getShort_eq (by omega), Option.bind_some,
          getShort_eq (by omega), Option.bind_some, getLong_eq (by omega), Option.bind_some,
          getShort_eq (by omega), Option.bind_some, if_pos (Nat.not_le.mp hover)]
      · rw [if_pos (Nat.not_le.mp hfix)]

/-- An answer that stands in the reply. -/
theorem answerLoop_some (h : answerAt dn reply pos = some a) :
    ∃ e' : DNSRecordEntry, e'.Heads a ∧ answerLoop dn reply (n + 1) pos nRet e dnsRecord =
      (getDNSReocrdEntry dn reply a.data a.length e').bind
        (afterAnswer dn reply n a nRet dnsRecord) := by
  obtain ⟨p, hname, hp⟩ := Option.bind_eq_some_iff.mp h
  obtain ⟨hin, ha⟩ := Option.ite_none_right_eq_some.mp hp
  cases Option.some.inj ha
  have hfix := hin.1
  refine ⟨{ e with
    recordType := short reply p.1
    recordClass := short reply (p.1 + 2)
    timeToLive := short reply (p.1 + 4) * 65536 + short reply (p.1 + 6)
    recordName := p.2 }, ⟨rfl, rfl, rfl, rfl⟩, ?_⟩
  rw [answerLoop, hname]
  dsimp only
  rw [if_neg (Nat.not_lt.mpr hfix), getShort_eq (by omega), Option.bind_some,
    getShort_eq (by omega), Option.bind_some, getLong_eq (by omega), Option.bind_some,
    getShort_eq (by omega), Option.bind_some, if_neg (Nat.not_lt.mpr hin.2)]
  congr 1
  funext q
  obtain ⟨b, e'⟩ := q
  cases b with
  | true => rfl
  | false => rfl

/-- The loop stops without a result at an answer that is read over the end. -/
theorem answerLoop_over (h : ∃ a ∈ (answersFrom dn reply n pos).1, a.ReadsOver reply) :
    answerLoop dn reply n pos nRet e dnsRecord = none := by
  induction n generalizing pos nRet e dnsRecord with
  | zero =>
      obtain ⟨a, ha, -⟩ := h
      exact absurd ha List.not_mem_nil
  | succ n ih =>
      rw [answersFrom] at h
      cases hat : answerAt dn reply pos with
      | none =>
          rw [hat] at h
          obtain ⟨a, ha, -⟩ := h
          exact absurd ha List.not_mem_nil
      | some a =>
          rw [hat] at h
          obtain ⟨e', he', hloop⟩ := answerLoop_some hat
          obtain ⟨hin, hlen⟩ := answerAt_inside hat
          obtain ⟨hover, hread⟩ := getDNSReocrdEntry_spec hin hlen he'
          rw [hloop]
          by_cases ha : a.ReadsOver reply
          · rw [hover ha]
            rfl
          · have hrest : ∃ b ∈ (answersFrom dn reply n (a.data + a.length)).1,
                b.ReadsOver reply := by
              obtain ⟨b, hb, hbover⟩ := h
              rcases List.mem_cons.mp hb with rfl | hb
              · exact absurd hbover ha
              · exact ⟨b, hb, hbover⟩
            obtain ⟨e'', -, -, hget⟩ := hread ha
            rw [hget, Option.bind_some, afterAnswer, ih hrest, ih hrest]
            exact ite_self _

/-- What a run of the loop gives: the records of the answers that say something, in order. -/
theorem answerLoop_spec (h : ∀ a ∈ (answersFrom dn reply n pos).1, ¬ a.ReadsOver reply) :
    ∃ added dnsRecord', answerLoop dn reply n pos nRet e dnsRecord =
        some (if (answersFrom dn reply n pos).2 then (if added = [] then nRet else .ok) else .fail,
          dnsRecord')
      ∧ dnsRecord'.listDNSEntry = dnsRecord.listDNSEntry ++ added
      ∧ List.Forall₂ (fun e a => e.Of dn reply a) added
        ((answersFrom dn reply n pos).1.filter fun a => (a.content dn reply).isSome) := by
  induction n generalizing pos nRet e dnsRecord with
  | zero => exact ⟨[], dnsRecord, rfl, (List.append_nil _).symm, .nil⟩
  | succ n ih =>
      rw [answersFrom] at h ⊢
      cases hat : answerAt dn reply pos with
      | none => exact ⟨[], dnsRecord, answerLoop_none hat, (List.append_nil _).symm, .nil⟩
      | some a =>
          rw [hat] at h
          dsimp only at h ⊢
          rw [List.forall_mem_cons] at h
          obtain ⟨e', he', hloop⟩ := answerLoop_some hat
          obtain ⟨hin, hlen⟩ := answerAt_inside hat
          obtain ⟨e'', he'', hpref, hget⟩ := (getDNSReocrdEntry_spec hin hlen he').2 h.1
          rw [hloop, hget, Option.bind_some]
          cases hcontent : a.content dn reply with
          | none =>
              obtain ⟨added, dnsRecord', hrun, hlist, hadded⟩ := ih h.2
              rw [List.filter_cons_of_neg (by rw [hcontent]; exact Bool.false_ne_true)]
              exact ⟨added, dnsRecord', hrun, hlist, hadded⟩
          | some s =>
              obtain ⟨added, dnsRecord', hrun, hlist, hadded⟩ := ih h.2
              rw [List.filter_cons_of_pos (by rw [hcontent]; rfl)]
              refine ⟨{ e'' with recordResult := s } :: added, dnsRecord', hrun.trans ?_, ?_,
                .cons ⟨he''.withResult s, hcontent, hpref⟩ hadded⟩
              · rw [if_neg (List.cons_ne_nil _ _), ite_self]
              · rw [hlist]
                exact List.append_assoc _ [_] added

end All

/-! ### The reply -/

section Main
variable {dn : DnExpand} {reply : List UInt8} {dnsRecord : DNSRecord}

theorem lt_of_queryLoop {n pos p : Nat} (h : queryLoop dn reply (n + 1) pos = some p) :
    pos < reply.length := by
  obtain ⟨q, hq, -⟩ := Option.bind_eq_some_iff.mp h
  rw [expandDomainName, Option.ite_none_left_eq_some] at hq
  exact Nat.not_le.mp hq.1

theorem not_parsesInside (h : parseDNSReply dn reply dnsRecord = none) :
    ¬ ParsesInside dn reply dnsRecord := by
  rintro ⟨nRet, dnsRecord', added, hparse, -⟩
  rw [h] at hparse
  cases hparse

/-- Of a run that has a result and adds records of answers, what it returns is left. -/
theorem parsesInside_of_run {nRet : DNSLookupRetCode} {dnsRecord' : DNSRecord}
    {added : List DNSRecordEntry} (h : parseDNSReply dn reply dnsRecord = some (nRet, dnsRecord'))
    (hlist : dnsRecord'.listDNSEntry = dnsRecord.listDNSEntry ++ added)
    (hadded : ∀ e ∈ added, ∃ a ∈ (answers dn reply).1,
      a.data + a.length ≤ reply.length ∧ e.Of dn reply a) :
    ParsesInside dn reply dnsRecord ↔ (nRet = .ok ↔ added ≠ []) := by
  constructor
  · rintro ⟨nRet', dnsRecord'', added', hparse, hlist', hret, -⟩
    rw [h] at hparse
    cases hparse
    rwa [List.append_cancel_left (hlist.symm.trans hlist')]
  · exact fun hret => ⟨nRet, dnsRecord', added, h, hlist, hret, hadded⟩

theorem inside_of_mem_answersFrom {a : Answer} {n pos : Nat}
    (h : a ∈ (answersFrom dn reply n pos).1) : a.data + a.length ≤ reply.length := by
  induction n generalizing pos with
  | zero => exact absurd h List.not_mem_nil
  | succ n ih =>
      rw [answersFrom] at h
      cases hat : answerAt dn reply pos with
      | none =>
          rw [hat] at h
          exact absurd h List.not_mem_nil
      | some b =>
          rw [hat] at h
          rcases List.mem_cons.mp h with rfl | h
          · exact (answerAt_inside hat).1
          · exact ih h

/-- The answers of a reply whose header can be read. -/
theorem parsesInside_answers {pos : Nat} (hanswers : answers dn reply =
      answersFrom dn reply (short reply 6) pos)
    (hparse : parseDNSReply dn reply dnsRecord = answerLoop dn reply (short reply 6) pos .notFound
      ⟨typeANY, classIN, 0, [], [], 10⟩ dnsRecord) :
    ParsesInside dn reply dnsRecord ↔ (∀ a ∈ (answers dn reply).1, ¬ a.ReadsOver reply)
      ∧ ((answers dn reply).2 = true
        ∨ ∀ a ∈ (answers dn reply).1, a.content dn reply = none) := by
  by_cases hover : ∀ a ∈ (answers dn reply).1, ¬ a.ReadsOver reply
  · rw [and_iff_right hover]
    rw [hanswers] at hover ⊢
    obtain ⟨added, dnsRecord', hrun, hlist, hadded⟩ := answerLoop_spec hover
    rw [parsesInside_of_run (hparse.trans hrun) hlist]
    · have hnil : added = [] ↔ ∀ a ∈ (answersFrom dn reply (short reply 6) pos).1,
          a.content dn reply = none := by
        rw [← List.length_eq_zero_iff, hadded.length_eq, List.length_eq_zero_iff,
          List.filter_eq_nil_iff]
        simp only [Bool.not_eq_true, Option.isSome_eq_false_iff, Option.isNone_iff_eq_none]
      rw [← hnil]
      cases (answersFrom dn reply (short reply 6) pos).2 with
      | true =>
          rw [if_pos rfl]
          by_cases h : added = []
          · simp [h]
          · simp [h]
      | false => simp
    · intro e he
      obtain ⟨i, rfl⟩ := List.mem_iff_get.mp he
      have hi := Nat.lt_of_lt_of_eq i.2 hadded.length_eq
      have ha := List.mem_of_mem_filter (List.get_mem _ ⟨i, hi⟩)
      rw [hanswers]
      exact ⟨_, ha, inside_of_mem_answersFrom ha, hadded.get i.2 hi⟩
  · refine iff_of_false (not_parsesInside ?_) fun h => hover h.1
    rw [hanswers] at hover
    rw [hparse]
    refine answerLoop_over ?_
    by_contra hno
    exact hover fun a ha hread => hno ⟨a, ha, hread⟩

end Main

/-- When the parser stays inside a reply and tells whether it added a record: the counts can be
read, no answer is read over the end, and a reply of which an answer is missing has none of which a
record is made. -/
theorem inside_iff (dn : DnExpand) (reply : List UInt8) (dnsRecord : DNSRecord) :
    ParsesInside dn reply dnsRecord ↔
      6 ≤ reply.length ∧ (short reply 4 = 0 → 8 ≤ reply.length)
      ∧ (∀ a ∈ (answers dn reply).1, ¬ a.ReadsOver reply)
      ∧ ((answers dn reply).2 = true ∨ ∀ a ∈ (answers dn reply).1, a.content dn reply = none) := by
  by_cases h₆ : 6 ≤ reply.length
  · rw [and_iff_right h₆]
    cases hquery : queryLoop dn reply (short reply 4) 12 with
    | none =>
        have hanswers : answers dn reply = ([], false) := by rw [answers, hquery]
        have hparse : parseDNSReply dn reply dnsRecord = some (.fail, dnsRecord) := by
          rw [parseDNSReply, getShort_eq h₆, Option.bind_some, hquery]
        have hzero : short reply 4 ≠ 0 := fun hzero => by
          rw [hzero] at hquery
          cases hquery
        rw [parsesInside_of_run hparse (List.append_nil _).symm fun e he =>
          absurd he List.not_mem_nil, hanswers]
        exact iff_of_true (by simp) ⟨fun h => absurd h hzero, by simp, by simp⟩
    | some pos =>
        by_cases h₈ : 8 ≤ reply.length
        · rw [parsesInside_answers (by rw [answers, hquery]), and_iff_right fun _ => h₈]
          rw [parseDNSReply, getShort_eq h₆, Option.bind_some, hquery]
          dsimp only
          rw [getShort_eq h₈, Option.bind_some]
        · have hparse : parseDNSReply dn reply dnsRecord = none := by
            rw [parseDNSReply, getShort_eq h₆, Option.bind_some, hquery]
            dsimp only
            rw [getShort_eq_none (Nat.not_le.mp h₈)]
            rfl
          refine iff_of_false (not_parsesInside hparse) fun h => h₈ (h.1 ?_)
          cases hcount : short reply 4 with
          | zero => rfl
          | succ n =>
              rw [hcount] at hquery
              have := lt_of_queryLoop hquery
              omega
  · refine iff_of_false (not_parsesInside ?_) fun h => h₆ h.1
    rw [parseDNSReply, getShort_eq_none (Nat.not_le.mp h₆)]
    rfl

/-- A resolver that expands the root only, which is a zero byte. -/
def expandRoot : DnExpand where
  expand msg pos size := if msg[pos]? = some 0 ∧ 0 < size then some (1, []) else none
  inside h := by
    obtain ⟨hroot, heq⟩ := Option.ite_none_right_eq_some.mp h
    cases heq
    exact (List.getElem?_eq_some_iff.mp hroot.1).1
  fits h := by
    obtain ⟨hroot, heq⟩ := Option.ite_none_right_eq_some.mp h
    cases heq
    exact hroot.2

/-- A TXT record of one byte, behind which the reply ends: the byte behind the reply is read. -/
theorem not_inside : ¬ ∀ (dn : DnExpand) (reply : List UInt8) (dnsRecord : DNSRecord),
    reply.length ≤ 4096 → ParsesInside dn reply dnsRecord := by
  intro h
  have hinside := h expandRoot
    [0, 1, 128, 0, 0, 0, 0, 1, 0, 0, 0, 0, 0, 0, 16, 0, 1, 0, 0, 0, 60, 0, 1, 0] ⟨0, []⟩ (by decide)
  refine not_parsesInside (Option.isNone_iff_eq_none.mp ?_) hinside
  decide +kernel

end Edm.Network

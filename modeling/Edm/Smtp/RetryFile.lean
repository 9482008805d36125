import Edm.Support.Fstream
import Edm.Smtp.RetryStore

/-!
# Smtp — the bytes of a retry file

`saveRetryTask` writes a session through a `std::fstream`: five numbers, nine strings, and the
message as a tenth.  A string stands behind its length.  The length of the message is known when
its pieces are written, so the writer goes back to it.  `loadTaskFromFile` reads all this again,
and asserts of each string that it read as many bytes as its length says.

* `saveRetryTask_eq`: the bytes of the file.
* `loadTaskFromFile_saved`: **the round trip** (`retryFile_roundTrip`).  What is read from a saved
  file is what the retry queue keeps of the session (`TaskFile.ofContext`).
* `loadTaskFromFile_aborted_iff`: **the assertions** (`retryFile_loads_iff`).  They hold of a file
  with all ten strings in it, and of no other; so a saved file that lost its end stops the relay.
-/

namespace Edm.Smtp.RetryFile
open Support

/-! ### Writing -/

/-- `writeStringDataIntoFile`. -/
def writeStringDataIntoFile (fout : Ofstream) (inData : Text) : Ofstream :=
  let dataSize := int32 inData.length
  (fout.write (le32 dataSize)).write (inData.take dataSize.toNat)

/-- The numbers of a session, as `saveRetryTask` writes them. -/
def numbers (ctx : SmtpContext) : List Text :=
  [le32 ctx.curRetryCount, le64 ctx.nextSendTime, le32 ctx.bytesTotal, le32 ctx.abSize,
    le64 ctx.point]

/-- Its strings. -/
def strings (ctx : SmtpContext) : List Text :=
  [ctx.smtpHelo, ctx.smtpMail, ctx.smtpRcpt, ctx.smtpUser, ctx.smtpPswd, ctx.realSender,
    ctx.msgHeader, ctx.rcptDomain, ctx.xMid]

/-- The loop over `sendbuffer`, with `mail_data_size`. -/
def writeMail (fout : Ofstream) (sendbuffer : List Text) : Ofstream × Int :=
  sendbuffer.foldl (fun f its => (f.1.write its, int32 (f.2 + its.length))) (fout, 0)

/-- `0 - (mail_data_size + sizeof(mail_data_size))`, a `size_t`, as the offset `seekp` takes. -/
def backOffset (mailDataSize : Int) : Int := (0 - (mailDataSize % 2 ^ 64 + 4)).bmod (2 ^ 64)

/-- The bytes `saveRetryTask` leaves in a file it could open. -/
def saveRetryTask (ctx : SmtpContext) : Text :=
  let fout := (numbers ctx).foldl Ofstream.write (.behind [])
  let fout := (strings ctx).foldl writeStringDataIntoFile fout
  let fout := fout.write (le32 0)
  let mail := writeMail fout ctx.sendbuffer
  let fout := mail.1.seekCur (backOffset mail.2)
  (fout.write (le32 mail.2)).bytes

/-! ### Reading -/

/-- The loop of `readStringDataFromFile`, which reads up to 1024 bytes at once: `read_size`,
`out_data` and the stream. -/
def readPieces (size readSize : Int) (outData : Text) (finput : Ifstream) :
    Int × Text × Ifstream :=
  if readSize < size ∧ finput.eof = false then
    let once := finput.read (min 1024 (size - readSize)).toNat
    if once.1.length < 1 then (readSize, outData, once.2)
    else readPieces size (readSize + once.1.length) (outData ++ once.1) once.2
  else (readSize, outData, finput)
termination_by (size - readSize).toNat
decreasing_by
  rename_i h hgot
  have hpos : ¬ (finput.read (min 1024 (size - readSize)).toNat).1.length < 1 := hgot
  omega

/-- What a call of `readStringDataFromFile` returns, and leaves in its arguments. -/
structure StringRead where
  outSize : Int
  size : Int
  outData : Text
  finput : Ifstream

/-- `readStringDataFromFile`. -/
def readStringDataFromFile (finput : Ifstream) : StringRead :=
  if finput.eof then ⟨-1, 0, [], finput⟩
  else
    let r := finput.readInto (le32 0)
    let size := ofLe32 r.1
    if r.2.good = false then ⟨-1, size, [], r.2⟩
    else
      let pieces := readPieces size 0 [] r.2
      ⟨pieces.1, size, pieces.2.1, pieces.2.2⟩

/-- A session that is read, and the stream. -/
structure Reading where
  ctx : SmtpContext
  finput : Ifstream

/-- A number is read into the `width` bytes of its variable. -/
def readNumber (mem : Text) (store : Text → SmtpContext → SmtpContext) (t : Reading) : Reading :=
  let r := t.finput.readInto mem
  ⟨store r.1 t.ctx, r.2⟩

/-- A string is read, and `assert(out_size == line_size)`. -/
def readString (store : Text → SmtpContext → SmtpContext) (t : Reading) : Option Reading :=
  let r := readStringDataFromFile t.finput
  if r.outSize = r.size then some ⟨store r.outData t.ctx, r.finput⟩ else none

/-- The context `new Smtp_Context` makes.  Nothing writes `point` and `ab_size`. -/
def fresh (filePath : Text) (abSize point : Int) : SmtpContext where
  command := .zero
  nextSteps := []
  clientHost := []
  clientPort := 0
  remoteHandle := -1
  remotePort := 0
  remoteHost := []
  smtpHelo := []
  smtpMail := []
  smtpRcpt := []
  smtpData := []
  smtpUser := []
  smtpPswd := []
  realSender := []
  msgHeader := []
  rcptDomain := []
  replyText := []
  xMid := []
  bytesTotal := 0
  point := point
  abSize := abSize
  sendbuffer := []
  listHistory := []
  filePath := filePath
  curRetryCount := -1
  nextSendTime := 0

/-- A time that is past becomes `now_time`. -/
def notBefore (nowTime : Int) (t : Reading) : Reading :=
  if t.ctx.nextSendTime < nowTime then { t with ctx := { t.ctx with nextSendTime := nowTime } }
  else t

/-- The numbers, in the order of the file. -/
def readNumbers (nowTime : Int) (t : Reading) : Reading :=
  let t := readNumber (le32 t.ctx.curRetryCount) (fun b c => { c with curRetryCount := ofLe32 b }) t
  let t := readNumber (le64 t.ctx.nextSendTime) (fun b c => { c with nextSendTime := ofLe64 b }) t
  let t := notBefore nowTime t
  let t := readNumber (le32 t.ctx.bytesTotal) (fun b c => { c with bytesTotal := ofLe32 b }) t
  let t := readNumber (le32 t.ctx.abSize) (fun b c => { c with abSize := ofLe32 b }) t
  readNumber (le64 t.ctx.point) (fun b c => { c with point := ofLe64 b }) t

/-- Where the strings go, in the order of the file.  The last is the message. -/
def stores : List (Text → SmtpContext → SmtpContext) :=
  [fun s c => { c with smtpHelo := s },
    fun s c => { c with smtpMail := s },
    fun s c => { c with smtpRcpt := s },
    fun s c => { c with smtpUser := s },
    fun s c => { c with smtpPswd := s },
    fun s c => { c with realSender := s },
    fun s c => { c with msgHeader := s },
    fun s c => { c with rcptDomain := s },
    fun s c => { c with xMid := s },
    fun s c => { c with sendbuffer := c.sendbuffer ++ [s] }]

/-- How a call of `loadTaskFromFile` ends: with a context, with NULL, or with the program. -/
inductive Loaded where
  | context (ctx : SmtpContext)
  | failed
  | aborted
  deriving DecidableEq

/-- `loadTaskFromFile`, of a file with the bytes `file`, if it can be opened. -/
def loadTaskFromFile (filePath : Text) (nowTime abSize point : Int) (file : Option Text) :
    Loaded :=
  match file with
  | none => .failed
  | some bytes =>
      let t := readNumbers nowTime ⟨fresh filePath abSize point, .of bytes⟩
      match stores.foldlM (fun t store => readString store t) t with
      | some t => .context t.ctx
      | none => .aborted

/-! ### The bytes of a saved file -/

/-- A string behind its length. -/
def entry (s : Text) : Text := le32 s.length ++ s

/-- What the types of a session allow, with strings and a message an `int` can give the length
of. -/
structure Storable (ctx : SmtpContext) : Prop where
  curRetryCount : -2 ^ 31 ≤ ctx.curRetryCount ∧ ctx.curRetryCount < 2 ^ 31
  nextSendTime : -2 ^ 63 ≤ ctx.nextSendTime ∧ ctx.nextSendTime < 2 ^ 63
  bytesTotal : -2 ^ 31 ≤ ctx.bytesTotal ∧ ctx.bytesTotal < 2 ^ 31
  abSize : -2 ^ 31 ≤ ctx.abSize ∧ ctx.abSize < 2 ^ 31
  point : -2 ^ 63 ≤ ctx.point ∧ ctx.point < 2 ^ 63
  strings : ∀ s ∈ strings ctx, s.length < 2 ^ 31
  mail : ctx.sendbuffer.flatten.length < 2 ^ 31

section Write
variable {s : Text}

theorem foldl_write (l : List Text) :
    l.foldl Ofstream.write (.behind s) = .behind (s ++ l.flatten) := by
  induction l generalizing s with
  | nil => simp
  | cons t l ih => rw [List.foldl_cons, Ofstream.behind_write, ih]; simp

theorem writeString_behind {t : Text} (h : t.length < 2 ^ 31) :
    writeStringDataIntoFile (.behind s) t = .behind (s ++ entry t) := by
  have hsize : int32 (t.length : Int) = t.length := int32_of_range (by omega) (by omega)
  rw [writeStringDataIntoFile, hsize, Ofstream.behind_write, Ofstream.behind_write,
    Int.toNat_natCast, List.take_length, List.append_assoc, entry]

theorem foldl_writeString {l : List Text} (h : ∀ t ∈ l, t.length < 2 ^ 31) :
    l.foldl writeStringDataIntoFile (.behind s) = .behind (s ++ l.flatMap entry) := by
  induction l generalizing s with
  | nil => simp
  | cons t l ih =>
      rw [List.foldl_cons, writeString_behind (h t List.mem_cons_self),
        ih fun t ht => h t (List.mem_cons_of_mem _ ht)]
      simp

/-- The sum of the lengths does not overflow. -/
theorem writeMail_behind {l : List Text} (h : l.flatten.length < 2 ^ 31) :
    writeMail (.behind s) l = (.behind (s ++ l.flatten), (l.flatten.length : Int)) := by
  have hgo : ∀ (l : List Text) (s : Text) (n : Nat), n + l.flatten.length < 2 ^ 31 →
      l.foldl (fun f its => (Ofstream.write f.1 its, int32 (f.2 + its.length)))
          (.behind s, (n : Int))
        = (.behind (s ++ l.flatten), ((n + l.flatten.length : Nat) : Int)) := by
    intro l
    induction l with
    | nil => intro s n _; simp
    | cons t l ih =>
        intro s n hn
        rw [List.flatten_cons, List.length_append] at hn
        have hsum : int32 ((n : Int) + t.length) = ((n + t.length : Nat) : Int) :=
          int32_of_range (by omega) (by omega)
        rw [List.foldl_cons]
        dsimp only
        rw [Ofstream.behind_write, hsum, ih _ _ (by omega)]
        simp [Nat.add_assoc]
  have := hgo l s 0 (by omega)
  rw [Nat.zero_add] at this
  exact this

theorem backOffset_eq {n : Nat} (h : n < 2 ^ 31) : backOffset n = -((n : Int) + 4) := by
  have hmod : (n : Int) % 2 ^ 64 = n := Int.emod_eq_of_lt (by omega) (by omega)
  rw [backOffset, hmod, Int.zero_sub]
  exact Int.bmod_eq_of_le (by omega) (by omega)

end Write

/-- The bytes of a saved file: the numbers, the strings, and the message. -/
theorem saveRetryTask_eq {ctx : SmtpContext} (hstrings : ∀ s ∈ strings ctx, s.length < 2 ^ 31)
    (hmail : ctx.sendbuffer.flatten.length < 2 ^ 31) : saveRetryTask ctx =
      (numbers ctx).flatten ++ (strings ctx ++ [ctx.sendbuffer.flatten]).flatMap entry := by
  rw [saveRetryTask, foldl_write, foldl_writeString hstrings, Ofstream.behind_write,
    writeMail_behind hmail, backOffset_eq hmail]
  have hback : -((ctx.sendbuffer.flatten.length : Int) + 4)
      = -((le32 0 ++ ctx.sendbuffer.flatten).length : Int) := by
    rw [List.length_append, length_le32]
    omega
  dsimp only
  rw [hback, List.append_assoc,
    Ofstream.behind_seekCur_write (t := le32 ctx.sendbuffer.flatten.length) (length_le32 0)]
  simp [entry, List.append_assoc]

/-! ### Reading a string -/

/-- What `readStringDataFromFile` returns where the string is complete, and what is behind it. -/
def takeString (s : Text) : Option (Text × Text) :=
  if 4 ≤ s.length ∧ 0 ≤ ofLe32 s ∧ (ofLe32 s).toNat ≤ s.length - 4 then
    some ((s.drop 4).take (ofLe32 s).toNat, (s.drop 4).drop (ofLe32 s).toNat)
  else none

section Read
variable {size readSize : Int} {outData s : Text} {n : Nat}

/-- The pieces of a string that is there. -/
theorem readPieces_whole (hsize : size = readSize + n) (hn : n ≤ s.length) :
    readPieces size readSize outData (.of s) = (size, outData ++ s.take n, .of (s.drop n)) := by
  induction n using Nat.strongRecOn generalizing readSize outData s with
  | ind n ih =>
      rw [readPieces]
      by_cases h0 : n = 0
      · subst h0
        rw [if_neg (by omega)]
        simp [hsize]
      · have hpiece : (min 1024 (size - readSize)).toNat = min 1024 n := by omega
        have hread := Ifstream.of_read (s := s) (n := min 1024 n) (by omega)
        have hlen : (s.take (min 1024 n)).length = min 1024 n := by
          rw [List.length_take]
          omega
        rw [if_pos ⟨by omega, rfl⟩, hpiece, hread]
        dsimp only
        rw [hlen, if_neg (by omega), ih (n - min 1024 n) (by omega) (by omega)
          (by rw [List.length_drop]; omega)]
        have hsplit : min 1024 n + (n - min 1024 n) = n := by omega
        rw [List.append_assoc, ← List.take_add, List.drop_drop, hsplit]

/-- The pieces of a string that is cut off. -/
theorem readPieces_short (hsize : size = readSize + n) (hn : s.length < n) :
    (readPieces size readSize outData (.of s)).1 = readSize + s.length := by
  induction n using Nat.strongRecOn generalizing readSize outData s with
  | ind n ih =>
      have hpiece : (min 1024 (size - readSize)).toNat = min 1024 n := by omega
      rw [readPieces, if_pos ⟨by omega, rfl⟩, hpiece]
      rcases Nat.lt_or_ge s.length (min 1024 n) with hlt | hge
      · rw [Ifstream.of_read_short hlt]
        dsimp only
        split
        next h => simp [Nat.lt_one_iff.mp h]
        next => rw [readPieces, if_neg fun h => by simp [Ifstream.ended] at h]
      · have hlen : (s.take (min 1024 n)).length = min 1024 n := by
          rw [List.length_take]
          omega
        rw [Ifstream.of_read hge]
        dsimp only
        rw [hlen, if_neg (by omega), ih (n - min 1024 n) (by omega) (by omega)
          (by rw [List.length_drop]; omega), List.length_drop]
        omega

/-- The length itself is cut off; the part of it that is there is not -1. -/
theorem readStringData_short (hs : IsBytes s) (h : s.length < 4) :
    ∃ size, 0 ≤ size ∧ readStringDataFromFile (.of s) = ⟨-1, size, [], .ended⟩ := by
  refine ⟨_, ofLe32_short hs h, ?_⟩
  rw [readStringDataFromFile, if_neg (show ¬ (Ifstream.of s).eof = true from Bool.false_ne_true),
    Ifstream.of_readInto_short (by rw [length_le32]; exact h)]
  rfl

theorem readStringData_of (h : 4 ≤ s.length) (hsize : ofLe32 s = size) {outSize : Int}
    {rest : Ifstream} (hpieces : readPieces size 0 [] (.of (s.drop 4)) = (outSize, outData, rest)) :
    readStringDataFromFile (.of s) = ⟨outSize, size, outData, rest⟩ := by
  rw [readStringDataFromFile, if_neg (show ¬ (Ifstream.of s).eof = true from Bool.false_ne_true),
    Ifstream.of_readInto (by rw [length_le32]; exact h), length_le32]
  dsimp only
  rw [ofLe32_take h, hsize, hpieces,
    if_neg (show ¬ (Ifstream.of (s.drop 4)).good = false from Bool.noConfusion)]

variable {store : Text → SmtpContext → SmtpContext} {ctx : SmtpContext}

theorem readString_eq {outSize : Int} {finput rest : Ifstream}
    (h : readStringDataFromFile finput = ⟨outSize, size, outData, rest⟩) :
    readString store ⟨ctx, finput⟩
      = if outSize = size then some ⟨store outData ctx, rest⟩ else none := by
  simp only [readString, h]

/-- The assertion holds of a string that is complete. -/
theorem readString_of (hs : IsBytes s) :
    readString store ⟨ctx, .of s⟩ = (takeString s).map fun r => ⟨store r.1 ctx, .of r.2⟩ := by
  rw [takeString]
  rcases Nat.lt_or_ge s.length 4 with hlt | hge
  · obtain ⟨size, hpos, hread⟩ := readStringData_short hs hlt
    rw [readString_eq hread, if_neg (by omega), if_neg fun h => absurd h.1 (by omega),
      Option.map_none]
  obtain ⟨size, hsize⟩ : ∃ size, ofLe32 s = size := ⟨_, rfl⟩
  have hread : ∀ {o : Int} {d : Text} {r : Ifstream},
      readPieces size 0 [] (.of (s.drop 4)) = (o, d, r) →
      readStringDataFromFile (.of s) = ⟨o, size, d, r⟩ := readStringData_of hge hsize
  rw [hsize]
  clear hsize
  rcases Int.lt_or_le size 0 with hneg | hpos
  · have hstop : readPieces size 0 [] (.of (s.drop 4)) = (0, [], .of (s.drop 4)) := by
      rw [readPieces, if_neg (by omega)]
    rw [readString_eq (hread hstop), if_neg (by omega), if_neg (by omega), Option.map_none]
  have hsize : size = 0 + (size.toNat : Int) := by omega
  rcases Nat.lt_or_ge (s.drop 4).length size.toNat with hshort | hwhole
  · have hcut : (readPieces size 0 [] (.of (s.drop 4))).1 = 0 + (s.drop 4).length :=
      readPieces_short hsize hshort
    rw [readString_eq (hread rfl), if_neg (by omega), if_neg _, Option.map_none]
    rw [List.length_drop] at hshort
    omega
  · rw [readString_eq (hread (readPieces_whole hsize hwhole)), if_pos rfl, if_pos _,
      Option.map_some, List.nil_append]
    rw [List.length_drop] at hwhole
    exact ⟨hge, hpos, hwhole⟩

/-- A string that was written is read. -/
theorem readString_entry {t : Text} (ht : t.length < 2 ^ 31) (rest : Text) :
    readString store ⟨ctx, .of (entry t ++ rest)⟩ = some ⟨store t ctx, .of rest⟩ := by
  have hsize : ofLe32 (entry t ++ rest) = 0 + ((t.length : Nat) : Int) := by
    rw [entry, List.append_assoc, ofLe32_append, int32_of_range (by omega) (by omega), Int.zero_add]
  have hdrop : (entry t ++ rest).drop 4 = t ++ rest := rfl
  have hlen : 4 ≤ (entry t ++ rest).length := by
    rw [entry, List.append_assoc, List.length_append, length_le32]
    omega
  have hwhole : t.length ≤ (t ++ rest).length := by
    rw [List.length_append]
    omega
  have hpieces : readPieces (0 + ((t.length : Nat) : Int)) 0 [] (.of (t ++ rest))
      = (0 + ((t.length : Nat) : Int), [] ++ (t ++ rest).take t.length,
        .of ((t ++ rest).drop t.length)) := readPieces_whole rfl hwhole
  rw [List.take_left, List.drop_left, List.nil_append] at hpieces
  rw [readString_eq (readStringData_of hlen hsize (hdrop ▸ hpieces)), if_pos rfl]

theorem readString_ended : readString store ⟨ctx, .ended⟩ = none := rfl

end Read

/-! ### The round trip -/

section RoundTrip
variable {ctx : SmtpContext} {rest : Text}

theorem foldlM_readString {l : List (Text → SmtpContext → SmtpContext)} {ts : List Text}
    (hlen : l.length = ts.length) (hts : ∀ t ∈ ts, t.length < 2 ^ 31) :
    l.foldlM (fun t store => readString store t) (⟨ctx, .of (ts.flatMap entry ++ rest)⟩ : Reading)
      = some ⟨(l.zip ts).foldl (fun c p => p.1 p.2 c) ctx, .of rest⟩ := by
  induction l generalizing ctx ts with
  | nil =>
      obtain rfl := List.eq_nil_of_length_eq_zero hlen.symm
      rfl
  | cons store l ih =>
      obtain ⟨t, ts, rfl⟩ := List.exists_cons_of_length_eq_add_one hlen.symm
      obtain ⟨ht, hts⟩ := List.forall_mem_cons.mp hts
      rw [List.foldlM_cons, List.flatMap_cons, List.append_assoc, readString_entry ht]
      exact ih (Nat.succ.inj hlen) hts

theorem readNumber_append {b mem : Text} (h : mem.length = b.length)
    (store : Text → SmtpContext → SmtpContext) :
    readNumber mem store ⟨ctx, .of (b ++ rest)⟩ = ⟨store b ctx, .of rest⟩ := by
  rw [readNumber, Ifstream.of_readInto_append h]

@[simp] theorem readNumber_le32 (z z' : Int) (store : Text → SmtpContext → SmtpContext) :
    readNumber (le32 z) store ⟨ctx, .of (le32 z' ++ rest)⟩ = ⟨store (le32 z') ctx, .of rest⟩ :=
  readNumber_append rfl store

@[simp] theorem readNumber_le64 (z z' : Int) (store : Text → SmtpContext → SmtpContext) :
    readNumber (le64 z) store ⟨ctx, .of (le64 z' ++ rest)⟩ = ⟨store (le64 z') ctx, .of rest⟩ :=
  readNumber_append rfl store

theorem ofLe32_le32 {z : Int} (h : -2 ^ 31 ≤ z ∧ z < 2 ^ 31) : ofLe32 (le32 z) = z := by
  have := ofLe32_append z []
  rw [List.append_nil, int32_of_range h.1 h.2] at this
  exact this

theorem ofLe64_le64 {z : Int} (h : -2 ^ 63 ≤ z ∧ z < 2 ^ 63) : ofLe64 (le64 z) = z := by
  have := ofLe64_append h.1 h.2 []
  rw [List.append_nil] at this
  exact this

/-- The session `c` with the numbers of `ctx`, to be sent not before `nowTime`. -/
def withNumbers (c ctx : SmtpContext) (nowTime : Int) : SmtpContext :=
  { c with
    curRetryCount := ctx.curRetryCount
    nextSendTime := max ctx.nextSendTime nowTime
    bytesTotal := ctx.bytesTotal
    abSize := ctx.abSize
    point := ctx.point }

/-- The numbers that were written are read. -/
theorem readNumbers_numbers (h : Storable ctx) (nowTime : Int) (c : SmtpContext) :
    readNumbers nowTime ⟨c, .of ((numbers ctx).flatten ++ rest)⟩
      = ⟨withNumbers c ctx nowTime, .of rest⟩ := by
  have hflat : (numbers ctx).flatten ++ rest = le32 ctx.curRetryCount ++ (le64 ctx.nextSendTime ++
      (le32 ctx.bytesTotal ++ (le32 ctx.abSize ++ (le64 ctx.point ++ rest)))) := by
    simp [numbers]
  rw [readNumbers, hflat, withNumbers]
  by_cases hpast : ctx.nextSendTime < nowTime
  · have hmax : max ctx.nextSendTime nowTime = nowTime := by omega
    simp [notBefore, hpast, hmax, ofLe32_le32 h.curRetryCount, ofLe64_le64 h.nextSendTime,
      ofLe32_le32 h.bytesTotal, ofLe32_le32 h.abSize, ofLe64_le64 h.point]
  · have hmax : max ctx.nextSendTime nowTime = ctx.nextSendTime := by omega
    simp [notBefore, hpast, hmax, ofLe32_le32 h.curRetryCount, ofLe64_le64 h.nextSendTime,
      ofLe32_le32 h.bytesTotal, ofLe32_le32 h.abSize, ofLe64_le64 h.point]

theorem storable_lengths (h : Storable ctx) :
    ∀ t ∈ strings ctx ++ [ctx.sendbuffer.flatten], t.length < 2 ^ 31 := by
  intro t ht
  rcases List.mem_append.mp ht with ht | ht
  · exact h.strings t ht
  · rw [List.mem_singleton.mp ht]
    exact h.mail

theorem nextSendTime_load (filePath : Text) (nowTime : Int) (f : TaskFile) :
    (Smtp.loadTaskFromFile filePath nowTime f).nextSendTime = max f.nextSendTime nowTime := by
  rw [Smtp.loadTaskFromFile]
  dsimp only
  split <;> omega

/-- What is read from a saved file is what the retry queue keeps of the session. -/
theorem loadTaskFromFile_saved (h : Storable ctx) (filePath : Text) (nowTime abSize point : Int) :
    loadTaskFromFile filePath nowTime abSize point (some (saveRetryTask ctx)) =
      .context (Smtp.loadTaskFromFile filePath nowTime (.ofContext ctx)) := by
  have htime : (Smtp.loadTaskFromFile filePath nowTime (.ofContext ctx)).nextSendTime
      = max ctx.nextSendTime nowTime := nextSendTime_load _ _ _
  have hread : stores.foldlM (fun t store => readString store t)
      (⟨withNumbers (fresh filePath abSize point) ctx nowTime,
        .of ((strings ctx ++ [ctx.sendbuffer.flatten]).flatMap entry ++ [])⟩ : Reading)
      = some ⟨(stores.zip (strings ctx ++ [ctx.sendbuffer.flatten])).foldl
          (fun c p => p.1 p.2 c) (withNumbers (fresh filePath abSize point) ctx nowTime),
        .of []⟩ :=
    foldlM_readString rfl (storable_lengths h)
  rw [List.append_nil] at hread
  rw [loadTaskFromFile, saveRetryTask_eq h.strings h.mail, readNumbers_numbers h, hread,
    withNumbers, ← htime]
  rfl

/-- A session that was loaded is saved with its new time, and the same bytes otherwise. -/
theorem saveRetryTask_loaded (h : Storable ctx) (filePath : Text) (nowTime : Int) :
    saveRetryTask (Smtp.loadTaskFromFile filePath nowTime (.ofContext ctx))
      = overlay (saveRetryTask ctx) 4 (le64 (max ctx.nextSendTime nowTime)) := by
  have htime : (Smtp.loadTaskFromFile filePath nowTime (.ofContext ctx)).nextSendTime
      = max ctx.nextSendTime nowTime := nextSendTime_load _ _ _
  have hstrings : strings (Smtp.loadTaskFromFile filePath nowTime (.ofContext ctx))
      = strings ctx := rfl
  have hmail : (Smtp.loadTaskFromFile filePath nowTime (.ofContext ctx)).sendbuffer.flatten
      = ctx.sendbuffer.flatten := List.append_nil _
  have hnumbers : numbers (Smtp.loadTaskFromFile filePath nowTime (.ofContext ctx))
      = [le32 ctx.curRetryCount, le64 (max ctx.nextSendTime nowTime), le32 ctx.bytesTotal,
        le32 ctx.abSize, le64 ctx.point] := by
    rw [← htime]
    rfl
  rw [saveRetryTask_eq (hstrings ▸ h.strings) (hmail ▸ h.mail), saveRetryTask_eq h.strings h.mail,
    hstrings, hmail, hnumbers, numbers]
  simp only [List.flatten_cons, List.append_assoc]
  exact (overlay_append (a := le32 ctx.curRetryCount) (m := le64 ctx.nextSendTime)
    (t := le64 (max ctx.nextSendTime nowTime)) rfl _).symm

/-- The strings of a session are those of another. -/
structure SameStrings (ctx' ctx : SmtpContext) : Prop where
  smtpHelo : ctx'.smtpHelo = ctx.smtpHelo
  smtpMail : ctx'.smtpMail = ctx.smtpMail
  smtpRcpt : ctx'.smtpRcpt = ctx.smtpRcpt
  smtpUser : ctx'.smtpUser = ctx.smtpUser
  smtpPswd : ctx'.smtpPswd = ctx.smtpPswd
  realSender : ctx'.realSender = ctx.realSender
  msgHeader : ctx'.msgHeader = ctx.msgHeader
  rcptDomain : ctx'.rcptDomain = ctx.rcptDomain
  xMid : ctx'.xMid = ctx.xMid

/-- **The round trip.**  A file that was saved is loaded as the session it was saved from, to be
sent not before now; saved again it differs in that time only. -/
theorem retryFile_roundTrip (h : Storable ctx) (filePath : Text) (nowTime abSize point : Int) :
    ∃ ctx', loadTaskFromFile filePath nowTime abSize point (some (saveRetryTask ctx))
        = .context ctx' ∧
      ctx'.curRetryCount = ctx.curRetryCount ∧ ctx'.bytesTotal = ctx.bytesTotal ∧
      ctx'.abSize = ctx.abSize ∧ ctx'.point = ctx.point ∧ SameStrings ctx' ctx ∧
      ctx'.sendbuffer.flatten = ctx.sendbuffer.flatten ∧
      ctx'.nextSendTime = max ctx.nextSendTime nowTime ∧
      saveRetryTask ctx'
        = overlay (saveRetryTask ctx) 4 (le64 (max ctx.nextSendTime nowTime)) :=
  ⟨_, loadTaskFromFile_saved h filePath nowTime abSize point, rfl, rfl, rfl, rfl,
    ⟨rfl, rfl, rfl, rfl, rfl, rfl, rfl, rfl, rfl⟩, List.append_nil _, nextSendTime_load _ _ _,
    saveRetryTask_loaded h filePath nowTime⟩

/-- A message whose time is past. -/
theorem retryFile_roundTrip_past : ∃ ctx', loadTaskFromFile "m/H1".toList 1500 7 9
    (some (saveRetryTask { SmtpContext.accepted [] 0 1000 3 with
      smtpMail := "a@b.cn".toList
      sendbuffer := ["To: c@d.cn\r\n".toList, [], "\r\nhi\r\n".toList]
      nextSendTime := 1200 })) = .context ctx' ∧ ctx'.nextSendTime = 1500 ∧
    ctx'.sendbuffer.flatten = "To: c@d.cn\r\n\r\nhi\r\n".toList := by
  have hstorable : Storable { SmtpContext.accepted [] 0 1000 3 with
      smtpMail := "a@b.cn".toList
      sendbuffer := ["To: c@d.cn\r\n".toList, [], "\r\nhi\r\n".toList]
      nextSendTime := 1200 } :=
    ⟨by decide, by decide, by decide, by decide, by decide, by decide, by decide⟩
  obtain ⟨ctx', hload, -, -, -, -, -, hmail, htime, -⟩ :=
    retryFile_roundTrip hstorable "m/H1".toList 1500 7 9
  exact ⟨ctx', hload, htime, hmail⟩

end RoundTrip

/-! ### What the assertions require -/

/-- The text begins with `n` complete strings: each is a length that is not negative, and that many
bytes. -/
def HoldsStrings : Nat → Text → Prop
  | 0, _ => True
  | n + 1, s => 4 ≤ s.length ∧ 0 ≤ ofLe32 s ∧ (ofLe32 s).toNat ≤ s.length - 4 ∧
      HoldsStrings n (s.drop (4 + (ofLe32 s).toNat))

/-- The file has the five numbers and the ten strings. -/
def Complete (s : Text) : Prop := 28 ≤ s.length ∧ HoldsStrings 10 (s.drop 28)

instance decidableHoldsStrings : ∀ (n : Nat) (s : Text), Decidable (HoldsStrings n s)
  | 0, _ => isTrue trivial
  | n + 1, s =>
      have := decidableHoldsStrings n (s.drop (4 + (ofLe32 s).toNat))
      inferInstanceAs (Decidable (_ ∧ _ ∧ _ ∧ _))

instance (s : Text) : Decidable (Complete s) := inferInstanceAs (Decidable (_ ∧ _))

theorem isSome_foldlM_readString {l : List (Text → SmtpContext → SmtpContext)} {ctx : SmtpContext}
    {s : Text} (hs : IsBytes s) :
    (l.foldlM (fun t store => readString store t) (⟨ctx, .of s⟩ : Reading)).isSome
      ↔ HoldsStrings l.length s := by
  induction l generalizing ctx s with
  | nil => simp [HoldsStrings]
  | cons store l ih =>
      rw [List.foldlM_cons, readString_of hs, takeString, List.length_cons, HoldsStrings]
      split
      next h =>
        rw [← List.drop_drop, Option.map_some]
        simp only [h, true_and, Option.bind_eq_bind, Option.bind_some]
        exact ih ((hs.drop 4).drop _)
      next h =>
        exact iff_of_false Bool.false_ne_true fun hall => h ⟨hall.1, hall.2.1, hall.2.2.1⟩

/-- The stream after `n` bytes were asked for. -/
def after (s : Text) (n : Nat) : Ifstream := if n ≤ s.length then .of (s.drop n) else .ended

theorem readNumber_finput {s mem : Text} {n : Nat} {t : Reading} (h : t.finput = after s n)
    (store : Text → SmtpContext → SmtpContext) :
    (readNumber mem store t).finput = after s (n + mem.length) := by
  rw [readNumber, h, after, after]
  dsimp only
  by_cases hn : n ≤ s.length
  · rw [if_pos hn]
    by_cases hmem : n + mem.length ≤ s.length
    · rw [if_pos hmem, Ifstream.of_readInto (by rw [List.length_drop]; omega), List.drop_drop]
    · rw [if_neg hmem, Ifstream.of_readInto_short (by rw [List.length_drop]; omega)]
  · rw [if_neg hn, if_neg (by omega), Ifstream.ended_readInto]

@[simp] theorem notBefore_finput (nowTime : Int) (t : Reading) :
    (notBefore nowTime t).finput = t.finput := by
  rw [notBefore]
  split <;> rfl

theorem readNumbers_finput (nowTime : Int) (ctx : SmtpContext) (s : Text) :
    (readNumbers nowTime ⟨ctx, .of s⟩).finput = after s 28 := by
  have hstart : (⟨ctx, .of s⟩ : Reading).finput = after s 0 := by
    rw [after, if_pos (Nat.zero_le _)]
    rfl
  have hclock : ∀ {t : Reading} {n : Nat}, t.finput = after s n →
      (notBefore nowTime t).finput = after s n := fun h => (notBefore_finput _ _).trans h
  exact readNumber_finput (readNumber_finput (readNumber_finput
    (hclock (readNumber_finput (readNumber_finput hstart _) _)) _) _) _

/-- The assertions hold of a complete file, and of no other. -/
theorem loadTaskFromFile_aborted_iff {s : Text} (hs : IsBytes s) (filePath : Text)
    (nowTime abSize point : Int) :
    loadTaskFromFile filePath nowTime abSize point (some s) = .aborted ↔ ¬ Complete s := by
  rw [loadTaskFromFile]
  have hstart := readNumbers_finput nowTime (fresh filePath abSize point) s
  generalize readNumbers nowTime ⟨fresh filePath abSize point, .of s⟩ = t at hstart ⊢
  obtain ⟨ctx, finput⟩ := t
  obtain rfl : finput = after s 28 := hstart
  have hsome : (stores.foldlM (fun t store => readString store t)
      (⟨ctx, after s 28⟩ : Reading)).isSome ↔ Complete s := by
    rw [Complete, after]
    split
    next h =>
      have hten : stores.length = 10 := rfl
      rw [isSome_foldlM_readString (hs.drop 28), hten]
      simp [h]
    next h => simp [h, stores, readString_ended]
  rw [← hsome]
  cases stores.foldlM (fun t store => readString store t) (⟨ctx, after s 28⟩ : Reading) with
  | none => simp
  | some t => simp

/-- **The assertions.**  A call returns just when the file has the five numbers and the ten
strings. -/
theorem retryFile_loads_iff {s : Text} (hs : IsBytes s) (filePath : Text)
    (nowTime abSize point : Int) :
    loadTaskFromFile filePath nowTime abSize point (some s) ≠ .aborted ↔ Complete s :=
  (not_congr (loadTaskFromFile_aborted_iff hs filePath nowTime abSize point)).trans not_not

/-- The file that a crash after the ninth byte leaves. -/
theorem retryFile_not_loaded : ¬ ∀ s : Text, IsBytes s →
    loadTaskFromFile "m/H1".toList 1500 0 0 (some s) ≠ .aborted := fun h =>
  h ((saveRetryTask (.accepted [] 0 1000 0)).take 9) (by decide +kernel) (by decide +kernel)

/-- A message with its sender and receiver. -/
theorem retryFile_loads_message : loadTaskFromFile "m/H1".toList 1500 0 0
    (some (saveRetryTask { SmtpContext.accepted [] 0 1000 3 with
      smtpMail := "a@b.cn".toList
      smtpRcpt := "c@d.cn".toList
      sendbuffer := ["To: c@d.cn\r\n".toList, "\r\nhi\r\n".toList] })) ≠ .aborted :=
  (retryFile_loads_iff (by decide +kernel) _ _ _ _).mpr (by decide +kernel)

end Edm.Smtp.RetryFile

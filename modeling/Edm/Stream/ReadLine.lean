import Edm.Support.LineEnds
import Edm.Support.Overwrite

/-!
# Stream — ReadLine

`ReadLineStream::readLine` (`cpplib/stream/linestream.cpp`), which reads a stream through a buffer.
What is left of the buffer is moved to its beginning before more is read; a CR at the end of it is
kept until the next byte is there, or the end of the stream.

* `lineEnd_eq`: the search in the buffer takes off the first line, if it is complete, and reads
  only what is filled.
* `readLine_spec`: one call, from a buffer that holds part of the stream.
* **The lines that are read are the lines of the stream**, however the feed cuts it (`reads_lines`).
-/

namespace Edm.Stream
open Support

/-! ### The code -/

/-- `ReadLineStream`.  `feed` is what the feed stream still returns, piece by piece; of a piece for
which there is no room, it returns the rest at the next call. -/
structure ReadLineStream where
  feed : List Text
  lpBuffer : Text
  nDataSize : Nat
  nCurPos : Nat
  bEndOfStream : Bool

namespace ReadLineStream

/-- `m_lpBuffer[i]`, in the part that is filled. -/
def byte (st : ReadLineStream) (i : Nat) : Option Char :=
  if i < st.nDataSize then st.lpBuffer[i]? else none

/-- The bytes of the buffer from `i` to `j`. -/
def slice (st : ReadLineStream) (i j : Nat) : Text := (st.lpBuffer.take j).drop i

/-- `memmove`. -/
def moveDown (st : ReadLineStream) : ReadLineStream :=
  if st.nCurPos ≠ 0 then
    { st with
      lpBuffer := overlay st.lpBuffer 0 (st.slice st.nCurPos st.nDataSize)
      nDataSize := st.nDataSize - st.nCurPos
      nCurPos := 0 }
  else st

/-- `readFromFeed`. -/
def readFromFeed (st : ReadLineStream) : Bool × ReadLineStream :=
  let st := st.moveDown
  if st.nDataSize ≥ st.lpBuffer.length then (false, st)
  else match st.feed with
    | [] => (true, { st with bEndOfStream := true })
    | p :: ps =>
        let room := st.lpBuffer.length - st.nDataSize
        (true, { st with
          feed := if p.length ≤ room then ps else p.drop room :: ps
          lpBuffer := overlay st.lpBuffer st.nDataSize (p.take room)
          nDataSize := st.nDataSize + (p.take room).length
          bEndOfStream := (p.take room).isEmpty })

/-- The loop of `readLineFromBuffer`: where the line ends, and where its end does; there is no
result when it reads what is not filled. -/
def lineEnd (st : ReadLineStream) (nPos : Nat) : Option (Option (Nat × Nat)) :=
  if nPos < st.nDataSize then
    (st.byte nPos).bind fun c =>
      if c = '\r' ∨ c = '\n' then
        if c = '\r' ∧ nPos + 1 ≥ st.nDataSize then some none
        else if c = '\r' then
          (st.byte (nPos + 1)).map fun d =>
            some (nPos, if d = '\n' then nPos + 1 + 1 else nPos + 1)
        else some (some (nPos, nPos + 1))
      else lineEnd st (nPos + 1)
  else some none
termination_by st.nDataSize - nPos

/-- `readLineFromBuffer`: the line and its end. -/
def readLineFromBuffer (st : ReadLineStream) : Option (Option (Text × Text) × ReadLineStream) :=
  (lineEnd st st.nCurPos).map fun
    | none => (none, st)
    | some (nPos, nCurPos) =>
        (some (st.slice st.nCurPos nPos, st.slice nPos nCurPos), { st with nCurPos := nCurPos })

/-- What `readLine` gives at the end of the stream. -/
def lastLine (st : ReadLineStream) : Option (Option (Text × Text) × ReadLineStream) :=
  let nEndPos := if st.nDataSize > 0 then st.nDataSize - 1 else st.nDataSize
  (if nEndPos < st.nDataSize then (st.byte nEndPos).map (· != '\r') else some false).map
    fun more =>
      let nEndPos := if more then nEndPos + 1 else nEndPos
      (if st.nDataSize > 0 then
        some (st.slice st.nCurPos nEndPos, st.slice nEndPos st.nDataSize) else none, st)

theorem feed_lt_of_readFromFeed {st st' : ReadLineStream} (h : readFromFeed st = (true, st'))
    (hend : st'.bEndOfStream = false) : st'.feed.flatten.length < st.feed.flatten.length := by
  have hfeed : st.moveDown.feed = st.feed := by
    rw [moveDown]
    split
    · rfl
    · rfl
  rw [readFromFeed, hfeed] at h
  dsimp only at h
  split at h
  next => cases h
  next hroom =>
    split at h
    next =>
      cases h
      cases hend
    next p ps hps =>
      cases h
      rw [hps]
      have hne : (p.take (st.moveDown.lpBuffer.length - st.moveDown.nDataSize)).length ≠ 0 :=
        fun hzero => by
          rw [List.length_eq_zero_iff] at hzero
          rw [List.isEmpty_iff.mpr hzero] at hend
          cases hend
      rw [List.length_take] at hne
      dsimp only
      split
      · rw [List.flatten_cons, List.length_append]
        omega
      · rw [List.flatten_cons, List.flatten_cons, List.length_append, List.length_append,
          List.length_drop]
        omega

/-- The loop of `readLine`. -/
def readLoop (st : ReadLineStream) : Option (Option (Text × Text) × ReadLineStream) :=
  match _h : readFromFeed st with
  | (false, st) => some (none, st)
  | (true, st') =>
      if _hend : st'.bEndOfStream then lastLine st'
      else (readLineFromBuffer st').bind fun r =>
        match r.1 with
        | some l => some (some l, r.2)
        | none => readLoop st'
termination_by st.feed.flatten.length
decreasing_by exact feed_lt_of_readFromFeed _h (Bool.eq_false_iff.mpr _hend)

/-- `readLine`. -/
def readLine (st : ReadLineStream) : Option (Option (Text × Text) × ReadLineStream) :=
  if st.bEndOfStream then some (none, st)
  else (readLineFromBuffer st).bind fun r =>
    match r.1 with
    | some l => some (some l, r.2)
    | none => readLoop r.2

/-- A new stream, with a buffer whose content does not matter. -/
def create (feed : List Text) (lpBuffer : Text) : ReadLineStream := ⟨feed, lpBuffer, 0, 0, false⟩

/-- The results of `readLine` up to the first `false`. -/
inductive Reads : ReadLineStream → List (Text × Text) → Prop where
  | stop {st st' : ReadLineStream} (h : readLine st = some (none, st')) : Reads st []
  | next {st st' : ReadLineStream} {l : Text × Text} {ls : List (Text × Text)}
      (h : readLine st = some (some l, st')) (rest : Reads st' ls) : Reads st (l :: ls)

/-! ### The buffer -/

/-- The bytes that are filled. -/
def data (st : ReadLineStream) : Text := st.lpBuffer.take st.nDataSize

/-- `r` is what is left in the buffer. -/
structure Holds (st : ReadLineStream) (r : Text) : Prop where
  cur : st.nCurPos ≤ st.nDataSize
  size : st.nDataSize ≤ st.lpBuffer.length
  left : st.data.drop st.nCurPos = r
  pieces : ∀ p ∈ st.feed, p ≠ []

section Buffer
variable {st st' : ReadLineStream} {r s l t : Text} {i j : Nat}

theorem length_data (h : st.nDataSize ≤ st.lpBuffer.length) : st.data.length = st.nDataSize :=
  List.length_take_of_le h

theorem byte_eq (h : i < st.nDataSize) : st.byte i = st.data[i]? := by
  rw [byte, if_pos h, data, List.getElem?_take_of_lt h]

theorem slice_eq (h : j ≤ st.nDataSize) : st.slice i j = (st.data.drop i).take (j - i) := by
  rw [slice, data, ← List.drop_take, List.take_take, Nat.min_eq_left h]

/-- A byte at an offset, and what is behind it. -/
theorem byte_of_drop {c : Char} (h : st.data.drop i = c :: s) :
    i < st.nDataSize ∧ st.byte i = some c ∧ st.data.drop (i + 1) = s := by
  have hlt : i < st.data.length := by
    have := congrArg List.length h
    rw [List.length_drop, List.length_cons] at this
    omega
  have hsize : i < st.nDataSize := Nat.lt_of_lt_of_le hlt (List.length_take_le _ _)
  rw [List.drop_eq_getElem_cons hlt] at h
  obtain ⟨hc, hs⟩ := List.cons.inj h
  exact ⟨hsize, by rw [byte_eq hsize, List.getElem?_eq_getElem hlt, hc], hs⟩

/-- At the end of what is filled. -/
theorem le_of_drop_nil (h : st.nDataSize ≤ st.lpBuffer.length) (hi : st.data.drop i = []) :
    st.nDataSize ≤ i := by
  rw [← length_data h]
  exact List.drop_eq_nil_iff.mp hi

/-- The search takes off the first line, if it is complete. -/
theorem lineEnd_eq (h : st.nDataSize ≤ st.lpBuffer.length) (s : Text) : ∀ nPos,
    st.data.drop nPos = s → lineEnd st nPos = some
      ((scanLine s).map fun p => (nPos + p.1.length, nPos + p.1.length + p.2.1.length)) := by
  induction s using line_induction with
  | nil =>
      intro nPos hs
      rw [lineEnd, if_neg (Nat.not_lt.mpr (le_of_drop_nil h hs))]
      rfl
  | lf s =>
      intro nPos hs
      obtain ⟨hlt, hbyte, -⟩ := byte_of_drop hs
      rw [lineEnd, if_pos hlt, hbyte, scanLine_lf]
      rfl
  | last =>
      intro nPos hs
      obtain ⟨hlt, hbyte, hrest⟩ := byte_of_drop hs
      rw [lineEnd, if_pos hlt, hbyte, Option.bind_some, if_pos (.inl rfl),
        if_pos ⟨rfl, le_of_drop_nil h hrest⟩, scanLine_cr_nil]
      rfl
  | crlf s =>
      intro nPos hs
      obtain ⟨hlt, hbyte, hrest⟩ := byte_of_drop hs
      obtain ⟨hlt', hbyte', -⟩ := byte_of_drop hrest
      rw [lineEnd, if_pos hlt, hbyte, Option.bind_some, if_pos (.inl rfl),
        if_neg fun hend => absurd hend.2 (Nat.not_le.mpr hlt'), if_pos rfl, hbyte', scanLine_crlf]
      rfl
  | cr d s hd =>
      intro nPos hs
      obtain ⟨hlt, hbyte, hrest⟩ := byte_of_drop hs
      obtain ⟨hlt', hbyte', -⟩ := byte_of_drop hrest
      rw [lineEnd, if_pos hlt, hbyte, Option.bind_some, if_pos (.inl rfl),
        if_neg fun hend => absurd hend.2 (Nat.not_le.mpr hlt'), if_pos rfl, hbyte',
        Option.map_some, if_neg hd, scanLine_cr hd]
      rfl
  | char c s h₁ h₂ ih =>
      intro nPos hs
      obtain ⟨hlt, hbyte, hrest⟩ := byte_of_drop hs
      rw [lineEnd, if_pos hlt, hbyte, Option.bind_some, if_neg fun hc => hc.elim h₁ h₂,
        ih (nPos + 1) hrest, scanLine_char h₁ h₂, Option.map_map]
      congr 2
      funext p
      refine Prod.ext ?_ ?_
      · simp only [Function.comp_apply, List.length_cons]
        omega
      · simp only [Function.comp_apply, List.length_cons]
        omega

/-- A buffer in which no line is complete. -/
theorem readLineFromBuffer_none (h : Holds st r) (hr : scanLine r = none) :
    readLineFromBuffer st = some (none, st) := by
  rw [readLineFromBuffer, lineEnd_eq h.size r st.nCurPos h.left, hr]
  rfl

/-- A line that is complete is given, and what is behind it is left. -/
theorem readLineFromBuffer_some (h : Holds st r) (hr : scanLine r = some (l, t, s)) :
    ∃ n, readLineFromBuffer st = some (some (l, t), { st with nCurPos := n })
      ∧ Holds { st with nCurPos := n } s := by
  obtain ⟨hsplit, -⟩ := scanLine_spec hr
  have hlen : l.length + (t.length + s.length) = st.nDataSize - st.nCurPos := by
    rw [← length_data h.size, ← List.length_drop, h.left, hsplit, List.length_append,
      List.length_append]
  have hcur := h.cur
  have hline : st.slice st.nCurPos (st.nCurPos + l.length) = l := by
    rw [slice_eq (by omega), h.left, hsplit, Nat.add_sub_cancel_left, List.take_left]
  have hend : st.slice (st.nCurPos + l.length) (st.nCurPos + l.length + t.length) = t := by
    rw [slice_eq (by omega), ← List.drop_drop, h.left, hsplit, Nat.add_sub_cancel_left,
      List.drop_left, List.take_left]
  refine ⟨st.nCurPos + l.length + t.length, ?_, ?_, h.size, ?_, h.pieces⟩
  · rw [readLineFromBuffer, lineEnd_eq h.size r st.nCurPos h.left, hr]
    dsimp only [Option.map_some]
    rw [hline, hend]
  · dsimp only
    omega
  · have hdata : data { st with nCurPos := st.nCurPos + l.length + t.length } = st.data := rfl
    dsimp only
    rw [hdata, ← List.drop_drop, ← List.drop_drop, h.left, hsplit, List.drop_left, List.drop_left]

end Buffer

/-! ### Reading more -/

/-- What is filled begins at the beginning of the buffer: it is `r`. -/
structure Filled (st : ReadLineStream) (r : Text) (size : Nat) (feed : List Text) : Prop where
  cur : st.nCurPos = 0
  count : st.nDataSize = r.length
  data : st.data = r
  length : st.lpBuffer.length = size
  feed : st.feed = feed

section More
variable {st : ReadLineStream} {r p : Text} {ps feed : List Text} {size : Nat}

theorem Filled.holds (h : Filled st r size feed) (hr : r.length ≤ size)
    (hfeed : ∀ p ∈ feed, p ≠ []) : Holds st r where
  cur := by rw [h.cur]; exact Nat.zero_le _
  size := by rw [h.count, h.length]; exact hr
  left := by rw [h.cur, h.data]; rfl
  pieces := by rw [h.feed]; exact hfeed

theorem length_left (h : Holds st r) : r.length = st.nDataSize - st.nCurPos := by
  rw [← length_data h.size, ← List.length_drop, h.left]

theorem length_left_le (h : Holds st r) : r.length ≤ st.lpBuffer.length := by
  have := length_left h
  have := h.size
  omega

/-- What is left is moved to the beginning of the buffer. -/
theorem moveDown_filled (h : Holds st r) :
    Filled st.moveDown r st.lpBuffer.length st.feed := by
  have hlen := length_left h
  by_cases hcur : st.nCurPos = 0
  · rw [hcur, Nat.sub_zero] at hlen
    rw [moveDown, if_neg fun hne => hne hcur]
    refine ⟨hcur, hlen.symm, ?_, rfl, rfl⟩
    rw [← h.left, hcur]
    rfl
  · have hslice : st.slice st.nCurPos st.nDataSize = r := h.left
    have hle : 0 + r.length ≤ st.lpBuffer.length := by
      rw [Nat.zero_add]
      exact length_left_le h
    rw [moveDown, if_pos hcur, hslice]
    refine ⟨rfl, hlen.symm, ?_, length_overlay hle, rfl⟩
    have htake := take_overlay (Nat.zero_le st.lpBuffer.length) r
    rw [Nat.zero_add] at htake
    rw [data]
    dsimp only
    rw [← hlen, htake]
    rfl

/-- The buffer is full. -/
theorem readFromFeed_full (h : Holds st r) (hfull : st.lpBuffer.length ≤ r.length) :
    readFromFeed st = (false, st.moveDown) := by
  have hdown := moveDown_filled h
  rw [readFromFeed]
  dsimp only
  rw [hdown.count, hdown.length, if_pos hfull]

/-- The feed has nothing more. -/
theorem readFromFeed_nil (h : Holds st r) (hfeed : st.feed = [])
    (hroom : r.length < st.lpBuffer.length) : ∃ st', readFromFeed st = (true, st')
      ∧ st'.bEndOfStream = true ∧ Filled st' r st.lpBuffer.length [] := by
  have hdown := moveDown_filled h
  refine ⟨{ st.moveDown with bEndOfStream := true }, ?_, rfl, hdown.cur, hdown.count, hdown.data,
    hdown.length, hdown.feed.trans hfeed⟩
  rw [readFromFeed]
  dsimp only
  rw [hdown.count, hdown.length, if_neg (Nat.not_le.mpr hroom), hdown.feed, hfeed]

/-- A piece, or what there is room for of it, is put behind what is left. -/
theorem readFromFeed_cons (h : Holds st r) (hfeed : st.feed = p :: ps)
    (hroom : r.length < st.lpBuffer.length) : ∃ st' q feed', readFromFeed st = (true, st')
      ∧ st'.bEndOfStream = false ∧ Filled st' (r ++ q) st.lpBuffer.length feed'
      ∧ (r ++ q).length ≤ st.lpBuffer.length ∧ st.feed.flatten = q ++ feed'.flatten
      ∧ q ≠ [] ∧ ∀ p ∈ feed', p ≠ [] := by
  have hdown := moveDown_filled h
  have hpieces := h.pieces
  rw [hfeed, List.forall_mem_cons] at hpieces
  generalize hn : st.lpBuffer.length - r.length = room
  have hq : (p.take room).length ≤ room := List.length_take_le _ _
  have hfits : (r ++ p.take room).length ≤ st.lpBuffer.length := by
    rw [List.length_append]
    omega
  have hne : p.take room ≠ [] := by
    rw [Ne, List.take_eq_nil_iff, not_or]
    exact ⟨by omega, hpieces.1⟩
  let st' : ReadLineStream := { st.moveDown with
    feed := if p.length ≤ room then ps else p.drop room :: ps
    lpBuffer := overlay st.moveDown.lpBuffer r.length (p.take room)
    nDataSize := r.length + (p.take room).length
    bEndOfStream := (p.take room).isEmpty }
  refine ⟨st', p.take room, st'.feed, ?_, List.isEmpty_eq_false_iff.mpr hne,
    ⟨hdown.cur, List.length_append.symm, ?_, ?_, rfl⟩, hfits, ?_, hne, ?_⟩
  · rw [readFromFeed]
    dsimp only
    rw [hdown.count, hdown.length, if_neg (Nat.not_le.mpr hroom), hdown.feed, hfeed]
    dsimp only
    rw [hn]
  · have htake := take_overlay (s := st.moveDown.lpBuffer) (p := r.length)
      (by rw [hdown.length]; exact length_left_le h) (p.take room)
    have hdata := hdown.data
    rw [data, hdown.count] at hdata
    rw [data]
    dsimp only [st']
    rw [htake, hdata]
  · dsimp only [st']
    rw [length_overlay (by rw [hdown.length, ← List.length_append]; exact hfits), hdown.length]
  · dsimp only [st']
    rw [hfeed, List.flatten_cons]
    split
    next hle => rw [List.take_of_length_le hle]
    next => rw [List.flatten_cons, ← List.append_assoc, List.take_append_drop]
  · dsimp only [st']
    split
    next => exact hpieces.2
    next hlt =>
      rw [List.forall_mem_cons]
      refine ⟨?_, hpieces.2⟩
      rw [Ne, List.drop_eq_nil_iff]
      exact hlt

end More

/-! ### Reading the lines -/

/-- The lines that are still to be read. -/
def Ahead (st : ReadLineStream) (ls : List (Text × Text)) : Prop :=
  st.bEndOfStream = true ∧ ls = []
    ∨ st.bEndOfStream = false ∧ ∃ r, Holds st r ∧ cutLines (r ++ st.feed.flatten) = ls

/-- A call gives the first of these lines, and leaves the others. -/
def Gives (res : Option (Option (Text × Text) × ReadLineStream)) (size : Nat) :
    List (Text × Text) → Prop
  | [] => ∃ st', res = some (none, st')
  | p :: ls => ∃ st', res = some (some p, st') ∧ Ahead st' ls ∧ st'.lpBuffer.length = size

section Lines
variable {st : ReadLineStream} {r l t s : Text} {ls : List (Text × Text)} {size : Nat}

/-- The end of the stream: what is left is the last line. -/
theorem lastLine_spec (h : Filled st r size []) (hend : st.bEndOfStream = true)
    (hsize : r.length ≤ size) (hr : scanLine r = none) :
    Gives (lastLine st) size (cutLines r) := by
  have hdata : ∀ j, j ≤ st.nDataSize → ∀ i, st.slice i j = (r.drop i).take (j - i) :=
    fun j hj i => by rw [slice_eq hj, h.data]
  by_cases hnil : r = []
  · subst hnil
    refine ⟨st, ?_⟩
    rw [lastLine, h.count]
    rfl
  obtain ⟨l, t, hlt, ht, hcr, hcut⟩ := cutLines_open hr hnil
  have hpos : 0 < r.length := List.length_pos_iff.mpr hnil
  have hbyte : st.byte (r.length - 1) = some (r.getLast hnil) := by
    rw [byte_eq (by rw [h.count]; omega), h.data, ← List.getLast?_eq_getElem?,
      List.getLast?_eq_some_getLast hnil]
  rw [hcut]
  refine ⟨st, ?_, .inl ⟨hend, rfl⟩, h.length⟩
  rw [lastLine, h.count, h.cur]
  dsimp only
  rw [if_pos hpos, if_pos (by omega), hbyte, Option.map_some, Option.map_some, if_pos hpos]
  rcases ht with rfl | rfl
  · have hlast : r.getLast hnil ≠ '\r' := fun heq => hcr (by
      rw [List.append_nil] at hlt
      rw [← heq, ← hlt]
      exact List.getLast_mem hnil)
    rw [if_pos (bne_iff_ne.mpr hlast), Nat.sub_add_cancel hpos, hdata _ (by rw [h.count]),
      hdata _ (by rw [h.count]), Nat.sub_self, List.take_zero, List.drop_zero, Nat.sub_zero,
      List.take_length, ← List.append_nil l, ← hlt]
  · have hlast : r.getLast hnil = '\r' := by
      rw [List.getLast_congr hnil (by simp) hlt, List.getLast_append_singleton]
    have hlen : r.length = l.length + 1 := by rw [hlt, List.length_append]; rfl
    rw [hlast, if_neg (by decide), hdata _ (by rw [h.count]; omega),
      hdata _ (by rw [h.count]), List.drop_zero, Nat.sub_zero, hlen, Nat.add_sub_cancel, hlt,
      List.take_left, List.drop_left, Nat.add_sub_cancel_left]
    rfl

/-- A line that is complete in the buffer. -/
theorem gives_of_scanLine (h : Holds st r) (hend : st.bEndOfStream = false)
    (hr : scanLine r = some (l, t, s)) :
    ∃ st', readLineFromBuffer st = some (some (l, t), st')
      ∧ Gives (some (some (l, t), st')) st.lpBuffer.length (cutLines (r ++ st.feed.flatten)) := by
  obtain ⟨n, hread, hholds⟩ := readLineFromBuffer_some h hr
  refine ⟨_, hread, ?_⟩
  rw [(scanLine_spec hr).2.2]
  exact ⟨_, rfl, .inr ⟨hend, s, hholds, rfl⟩, rfl⟩

/-- If no line is complete and one is to be read, there is room for more. -/
theorem length_lt_of_scanLine (hr : scanLine r = none) (f : Text)
    (hfits : ∀ p ∈ cutLines (r ++ f), p.1.length + p.2.length < size)
    (hne : cutLines (r ++ f) ≠ []) : r.length < size := by
  obtain ⟨p, ls, hls⟩ := List.exists_cons_of_ne_nil hne
  have hle := length_le_of_scanLine hr f p (by rw [hls]; rfl)
  exact Nat.lt_of_le_of_lt hle (hfits p (by rw [hls]; exact List.mem_cons_self))

theorem readLoop_false {st' : ReadLineStream} (h : readFromFeed st = (false, st')) :
    readLoop st = some (none, st') := by
  rw [readLoop]
  split
  next heq =>
    rw [h] at heq
    cases heq
    rfl
  next heq =>
    rw [h] at heq
    cases heq

theorem readLoop_true {st' : ReadLineStream} (h : readFromFeed st = (true, st')) :
    readLoop st = if st'.bEndOfStream then lastLine st'
      else (readLineFromBuffer st').bind fun p =>
        match p.1 with
        | some l => some (some l, p.2)
        | none => readLoop st' := by
  rw [readLoop]
  split
  next heq =>
    rw [h] at heq
    cases heq
  next heq =>
    rw [h] at heq
    cases heq
    rfl

/-- The loop, from a buffer in which no line is complete. -/
theorem readLoop_spec (h : Holds st r) (hr : scanLine r = none)
    (hfits : ∀ p ∈ cutLines (r ++ st.feed.flatten),
      p.1.length + p.2.length < st.lpBuffer.length) :
    Gives (readLoop st) st.lpBuffer.length (cutLines (r ++ st.feed.flatten)) := by
  induction hn : st.feed.flatten.length using Nat.strong_induction_on generalizing st r with
  | h n ih =>
    by_cases hroom : r.length < st.lpBuffer.length
    · cases hfeed : st.feed with
      | nil =>
          obtain ⟨st', hread, hend, hfilled⟩ := readFromFeed_nil h hfeed hroom
          rw [readLoop_true hread, if_pos hend, List.flatten_nil, List.append_nil]
          exact lastLine_spec hfilled hend (Nat.le_of_lt hroom) hr
      | cons p ps =>
          obtain ⟨st', q, feed', hread, hend, hfilled, hle, hflat, hne, hpieces⟩ :=
            readFromFeed_cons h hfeed hroom
          have hholds := hfilled.holds hle hpieces
          rw [← hfeed, hflat, ← List.append_assoc, ← hfilled.feed, ← hfilled.length]
          rw [hflat, ← List.append_assoc, ← hfilled.feed, ← hfilled.length] at hfits
          rw [readLoop_true hread, if_neg (by rw [hend]; exact Bool.false_ne_true)]
          cases hscan : scanLine (r ++ q) with
          | none =>
              rw [readLineFromBuffer_none hholds hscan]
              refine ih _ ?_ hholds hscan hfits rfl
              rw [← hn, hflat, List.length_append, hfilled.feed]
              have := List.length_pos_iff.mpr hne
              omega
          | some p =>
              obtain ⟨st'', hline, hgives⟩ := gives_of_scanLine hholds hend hscan
              rw [hline]
              exact hgives
    · rw [readLoop_false (readFromFeed_full h (Nat.not_lt.mp hroom))]
      by_cases hnil : cutLines (r ++ st.feed.flatten) = []
      · rw [hnil]
        exact ⟨_, rfl⟩
      · exact absurd (length_lt_of_scanLine hr _ hfits hnil) hroom

/-- One call gives the next line, and there is none when it says so. -/
theorem readLine_spec (h : Ahead st ls)
    (hfits : ∀ p ∈ ls, p.1.length + p.2.length < st.lpBuffer.length) :
    Gives (readLine st) st.lpBuffer.length ls := by
  rcases h with ⟨hend, rfl⟩ | ⟨hend, r, hholds, rfl⟩
  · rw [readLine, if_pos hend]
    exact ⟨st, rfl⟩
  · rw [readLine, if_neg (by rw [hend]; exact Bool.false_ne_true)]
    cases hscan : scanLine r with
    | none =>
        rw [readLineFromBuffer_none hholds hscan]
        exact readLoop_spec hholds hscan hfits
    | some p =>
        obtain ⟨st', hline, hgives⟩ := gives_of_scanLine hholds hend hscan
        rw [hline]
        exact hgives

/-- All of the lines that are ahead are read, in order. -/
theorem reads_of_ahead (h : Ahead st ls)
    (hfits : ∀ p ∈ ls, p.1.length + p.2.length < st.lpBuffer.length) : Reads st ls := by
  induction ls generalizing st with
  | nil =>
      obtain ⟨st', hread⟩ := readLine_spec h hfits
      exact .stop hread
  | cons p ls ih =>
      obtain ⟨st', hread, hahead, hlen⟩ := readLine_spec h hfits
      rw [List.forall_mem_cons, ← hlen] at hfits
      exact .next hread (ih hahead hfits.2)

end Lines

/-- The line reader does not depend on the pieces: if every line of the stream, with its end, is
shorter than the buffer, then what `readLine` gives up to the first `false` are the lines of the
stream, each with its end. -/
theorem reads_lines (feed : List Text) (lpBuffer : Text) (hpieces : ∀ p ∈ feed, p ≠ [])
    (hfits : ∀ p ∈ cutLines feed.flatten, p.1.length + p.2.length < lpBuffer.length) :
    Reads (create feed lpBuffer) (cutLines feed.flatten) := by
  have hholds : Holds (create feed lpBuffer) [] :=
    ⟨Nat.le_refl 0, Nat.zero_le _, List.drop_eq_nil_of_le (List.length_take_le 0 _), hpieces⟩
  exact reads_of_ahead (.inr ⟨rfl, [], hholds, rfl⟩) hfits

/-- The CR at the end of a piece and the LF that begins the next one are one end. -/
theorem reads_lines_split :
    Reads (create ["ab\r".toList, "\ncd\r".toList, "e".toList] (List.replicate 5 'x'))
      [("ab".toList, "\r\n".toList), ("cd".toList, "\r".toList), ("e".toList, [])] :=
  reads_lines ["ab\r".toList, "\ncd\r".toList, "e".toList] (List.replicate 5 'x')
    (by decide) (by decide)

end ReadLineStream

end Edm.Stream

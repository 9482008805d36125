import Edm.Support.Bytes
import Edm.Support.Overwrite

/-!
# Support — Fstream

`std::fstream` on a binary file.  An `Ofstream` has the bytes of the file and the position of the
next ones, an `Ifstream` the bytes that are left and the state bits.

A writer at the end of what it wrote is `Ofstream.behind`: writing appends (`behind_write`), and
bytes it goes back to are replaced (`behind_seekCur_write`).  A reader that has met no end is
`Ifstream.of`: it gives the bytes that are there (`of_read`), and with too few of them it is at its
end (`of_read_short`).
-/

namespace Support

/-! ### Writing -/

/-- A file that is written. -/
structure Ofstream where
  bytes : Text
  pos : Nat
  good : Bool

namespace Ofstream

/-- The writer at the end of `s`; a file that is opened with `ios_base::out` is empty. -/
def behind (s : Text) : Ofstream := ⟨s, s.length, true⟩

/-- `write`.  Behind the end of the file the gap is filled with NULs. -/
def write (f : Ofstream) (s : Text) : Ofstream :=
  if f.good then
    { f with bytes := overlay (f.bytes.rightpad f.pos nul) f.pos s, pos := f.pos + s.length }
  else f

/-- `seekp(off, ios_base::cur)`. -/
def seekCur (f : Ofstream) (off : Int) : Ofstream :=
  if !f.good then f
  else if f.pos + off < 0 then { f with good := false }
  else { f with pos := (f.pos + off).toNat }

theorem rightpad_of_le {s : Text} {n : Nat} (h : n ≤ s.length) : s.rightpad n nul = s := by
  rw [List.rightpad, Nat.sub_eq_zero_of_le h, List.replicate_zero, List.append_nil]

@[simp] theorem behind_write (s t : Text) : (behind s).write t = behind (s ++ t) := by
  have hover : overlay s s.length t = s ++ t := by
    rw [overlay, List.take_length, List.drop_eq_nil_of_le (Nat.le_add_right _ _), List.append_nil]
  rw [write, if_pos (show (behind s).good = true from rfl)]
  simp only [behind, rightpad_of_le (le_refl s.length), hover, List.length_append]

/-- The writer goes back to bytes it wrote, and writes as many others. -/
theorem behind_seekCur_write {a m c t : Text} (h : m.length = t.length) :
    (((behind (a ++ (m ++ c))).seekCur (-((m ++ c).length : Int))).write t).bytes
      = a ++ (t ++ c) := by
  have hpos : ((a ++ (m ++ c)).length : Int) + -((m ++ c).length : Int) = a.length := by
    rw [List.length_append, Int.natCast_add]
    omega
  have hback : (behind (a ++ (m ++ c))).seekCur (-((m ++ c).length : Int))
      = ⟨a ++ (m ++ c), a.length, true⟩ := by
    simp only [seekCur, behind, Bool.not_true, Bool.false_eq_true, if_false, hpos,
      Int.toNat_natCast]
    rw [if_neg (by omega)]
  rw [hback, write, if_pos rfl]
  dsimp only
  rw [rightpad_of_le (by rw [List.length_append]; omega), overlay_append h]

end Ofstream

/-! ### Reading -/

/-- A file that is read. -/
structure Ifstream where
  rest : Text
  eof : Bool
  fail : Bool

namespace Ifstream

/-- The reader before `s`, in good state. -/
def of (s : Text) : Ifstream := ⟨s, false, false⟩

/-- The reader that wanted more than there was. -/
def ended : Ifstream := ⟨[], true, true⟩

/-- `good()`. -/
def good (f : Ifstream) : Bool := !f.eof && !f.fail

/-- `read` of `n` bytes: those it gives, `gcount()` many. -/
def read (f : Ifstream) (n : Nat) : Text × Ifstream :=
  if f.good then
    (f.rest.take n, ⟨f.rest.drop n, decide (f.rest.length < n), decide (f.rest.length < n)⟩)
  else ([], { f with fail := true })

/-- `read` into a variable with the bytes `mem`: the bytes it has then. -/
def readInto (f : Ifstream) (mem : Text) : Text × Ifstream :=
  let r := f.read mem.length
  (r.1 ++ mem.drop r.1.length, r.2)

theorem of_read {s : Text} {n : Nat} (h : n ≤ s.length) :
    (of s).read n = (s.take n, of (s.drop n)) := by
  have hlen : ¬ s.length < n := Nat.not_lt.mpr h
  rw [read, if_pos (show (of s).good = true from rfl)]
  simp [of, hlen]

theorem of_read_short {s : Text} {n : Nat} (h : s.length < n) : (of s).read n = (s, ended) := by
  rw [read, if_pos (show (of s).good = true from rfl)]
  simp [of, ended, h, List.take_of_length_le (Nat.le_of_lt h), Nat.le_of_lt h]

theorem of_readInto {s mem : Text} (h : mem.length ≤ s.length) :
    (of s).readInto mem = (s.take mem.length, of (s.drop mem.length)) := by
  have hlen : (s.take mem.length).length = mem.length := by
    rw [List.length_take, Nat.min_eq_left h]
  rw [readInto, of_read h]
  simp only [hlen, List.drop_length, List.append_nil]

theorem of_readInto_append {s mem : Text} (h : mem.length = s.length) (t : Text) :
    (of (s ++ t)).readInto mem = (s, of t) := by
  rw [of_readInto (by rw [List.length_append]; omega), h, List.take_left, List.drop_left]

theorem of_readInto_short {s mem : Text} (h : s.length < mem.length) :
    (of s).readInto mem = (s ++ mem.drop s.length, ended) := by
  rw [readInto, of_read_short h]

theorem ended_readInto (mem : Text) : ended.readInto mem = (mem, ended) := by
  rw [readInto, read, if_neg (show ¬ ended.good = true from Bool.false_ne_true)]
  simp only [List.length_nil, List.drop_zero, List.nil_append, ended]

end Ifstream

end Support

import Edm.Deliver.InetAddr
import Edm.Support.Bisect
import Edm.Support.Split

/-!
# Cachedb — IpArea

Where an address is: `load` reads a file of lines `start|end|area|…`, and `find_ip` looks for the
line of an address by halving.

`Comparison` looks at the octets up to the first one in which the ends of a line differ, so that a
line also takes addresses beside it, and the first line is never looked at.  `located_iff` tells when
the answer is right nevertheless.
-/

namespace Edm.Cachedb.IpArea

open Support Bisect
open Deliver.InetAddr (IsOctet)

/-! ### The file -/

/-- `struct ipnode`. -/
structure Ipnode where
  ip1 : Nat
  ip2 : Nat
  ip3 : Nat
  ip4 : Nat
  deriving DecidableEq

/-- `struct ipline`. -/
structure Ipline where
  start : Ipnode
  stop : Ipnode
  area1 : Text
  area2 : Text
  flag : Nat
  deriving DecidableEq

/-- `sscanf(s, "%[^c]c%[^c]c…", …)` with `n` conversions into blocks of `size` bytes: what is
stored, `none` where it does not fit. -/
def scanSets (c : Char) (size : Nat) : Nat → Text → Option (List Text)
  | 0, _ => some []
  | n + 1, s =>
      let f := s.takeWhile (· != c)
      if f = [] then some []
      else if size ≤ f.length then none
      else match s.dropWhile (· != c) with
        | [] => some [f]
        | _ :: s => (scanSets c size n s).map (f :: ·)

/-- Four variables behind `sscanf`; `none` where one has no value. -/
def scanInto (c : Char) (size : Nat) (vars : List (Option Text)) (s : Text) :
    Option (List (Option Text)) :=
  (scanSets c size 4 s).map fun fs => fs.map some ++ vars.drop fs.length

/-- `atoi` into an `unsigned char`. -/
def octet (tmp : Text) : Nat := (atoi tmp % 256).toNat

def node : List (Option Text) → Option Ipnode
  | [some tmp1, some tmp2, some tmp3, some tmp4] =>
      some ⟨octet tmp1, octet tmp2, octet tmp3, octet tmp4⟩
  | _ => none

/-- `pl->flag`. -/
def flag (start stop : Ipnode) : Nat :=
  if start.ip1 < stop.ip1 then 1
  else if start.ip2 < stop.ip2 then 2
  else if start.ip3 < stop.ip3 then 3
  else if start.ip4 < stop.ip4 then 4
  else 4

/-- The variables of `load`: `b_ip`, `e_ip`, `area1`, `area2`, and `tmp1` to `tmp4`. -/
structure Vars where
  fields : List (Option Text)
  tmp : List (Option Text)

/-- A line, and the variables behind it. -/
def loadLine (v : Vars) (line : Text) : Option (Ipline × Vars) :=
  (scanInto '|' 64 v.fields line).bind fun
    | [some b_ip, some e_ip, some area1, some area2] =>
        (scanInto '.' 8 v.tmp b_ip).bind fun tmp =>
          (node tmp).bind fun start =>
            (scanInto '.' 8 tmp e_ip).bind fun tmp =>
              (node tmp).map fun stop =>
                (⟨start, stop, area1.take 63, area2.take 63, flag start stop⟩,
                  ⟨[some b_ip, some e_ip, some area1, some area2], tmp⟩)
    | _ => none

/-- The loop over the block, with the line up to `p`; `none` behind the block. -/
def loadFrom : Vars → Text → Text → Option (List Ipline)
  | _, _, [] => none
  | v, line, c :: p =>
      if c = '\n' then (loadLine v line).bind fun r => (loadFrom r.2 [] p).map (r.1 :: ·)
      else if c = nul then some []
      else loadFrom v (line ++ [c]) p

def unset : List (Option Text) := List.replicate 4 none

/-- `load`; `heap` is the last byte of the block, which nothing is read into. -/
def load (heap : Char) (file : Text) : Option (List Ipline) :=
  loadFrom ⟨unset, unset⟩ [] (file ++ [heap])

/-! ### The search -/

/-- `Comparison`. -/
def comparison (line : Ipline) (node : Ipnode) : Nat :=
  if (line.flag = 1 ∧ (node.ip1 ≥ line.start.ip1 ∧ node.ip1 ≤ line.stop.ip1)) ∨
      (line.flag = 2 ∧ (node.ip1 ≥ line.start.ip1 ∧ node.ip1 ≤ line.stop.ip1 ∧
        node.ip2 ≥ line.start.ip2 ∧ node.ip2 ≤ line.stop.ip2)) ∨
      (line.flag = 3 ∧ (node.ip1 ≥ line.start.ip1 ∧ node.ip1 ≤ line.stop.ip1 ∧
        node.ip2 ≥ line.start.ip2 ∧ node.ip2 ≤ line.stop.ip2 ∧
        node.ip3 ≥ line.start.ip3 ∧ node.ip3 ≤ line.stop.ip3)) ∨
      (line.flag = 4 ∧ (node.ip1 ≥ line.start.ip1 ∧ node.ip1 ≤ line.stop.ip1 ∧
        node.ip2 ≥ line.start.ip2 ∧ node.ip2 ≤ line.stop.ip2 ∧
        node.ip3 ≥ line.start.ip3 ∧ node.ip3 ≤ line.stop.ip3 ∧
        node.ip4 ≥ line.start.ip4 ∧ node.ip4 ≤ line.stop.ip4)) then 0
  else if node.ip1 < line.start.ip1 ∨
      (node.ip1 ≥ line.start.ip1 ∧ node.ip1 ≤ line.stop.ip1 ∧ node.ip2 < line.start.ip2) ∨
      (node.ip1 ≥ line.start.ip1 ∧ node.ip1 ≤ line.stop.ip1 ∧ node.ip2 ≥ line.start.ip2 ∧
        node.ip2 ≤ line.stop.ip2 ∧ node.ip3 < line.start.ip3) ∨
      (node.ip1 ≥ line.start.ip1 ∧ node.ip1 ≤ line.stop.ip1 ∧ node.ip2 ≥ line.start.ip2 ∧
        node.ip2 ≤ line.stop.ip2 ∧ node.ip3 ≥ line.start.ip3 ∧ node.ip3 ≤ line.stop.ip3 ∧
        node.ip4 < line.start.ip4) then 2
  else 1

/-- What `find_ip` does at `ipv[m]`. -/
def probe (ipv : List Ipline) (node : Ipnode) (m : Nat) : Probe Text :=
  match ipv[m]? with
  | none => .left
  | some line =>
      if comparison line node = 2 then .left
      else if comparison line node = 1 then .right
      else .found line.area1

/-- `find_ip`: the area when it returns 1.  The window always has an entry, so that
`i_end != i_begin + 1` is `i_begin + 1 < i_end`. -/
def findIp (ipv : List Ipline) (ip : Text) : Option (Option Text) :=
  if ipv = [] then some none
  else ((scanInto '.' 8 unset ip).bind node).map fun node => search (probe ipv node) 0 ipv.length

/-! ### What it is for -/

namespace Ipnode

/-- The address as a number. -/
def value (a : Ipnode) : Nat := ((a.ip1 * 256 + a.ip2) * 256 + a.ip3) * 256 + a.ip4

def Octets (a : Ipnode) : Prop := a.ip1 < 256 ∧ a.ip2 < 256 ∧ a.ip3 < 256 ∧ a.ip4 < 256

end Ipnode

/-- A dotted quad. -/
structure Quad where
  f1 : Text
  f2 : Text
  f3 : Text
  f4 : Text
  octets : IsOctet f1 ∧ IsOctet f2 ∧ IsOctet f3 ∧ IsOctet f4

namespace Quad

def text (q : Quad) : Text := q.f1 ++ '.' :: (q.f2 ++ '.' :: (q.f3 ++ '.' :: q.f4))

def node (q : Quad) : Ipnode := ⟨decimal q.f1, decimal q.f2, decimal q.f3, decimal q.f4⟩

def value (q : Quad) : Nat := q.node.value

end Quad

/-- A line `start|end|area|…`; `tail` is what is behind the second `|`. -/
structure IpEntry where
  start : Quad
  stop : Quad
  tail : Text
  ordered : start.value ≤ stop.value
  clean : '\n' ∉ tail ∧ nul ∉ tail

namespace IpEntry
variable (e : IpEntry)

def text : Text := e.start.text ++ '|' :: (e.stop.text ++ '|' :: e.tail)

def area : Text := (cut '|' e.tail).1

/-- The field behind the area. -/
def second : Text := (cut '|' (cut '|' e.tail).2).1

/-- The address is in the range of the line. -/
def holds (x : Quad) : Bool := e.start.value ≤ x.value && x.value ≤ e.stop.value

/-- The line as it is loaded, with these areas. -/
def line (area1 area2 : Text) : Ipline :=
  ⟨e.start.node, e.stop.node, area1, area2, flag e.start.node e.stop.node⟩

/-- The leading octets of the address are those of the line. -/
def admits (x : Quad) : Bool := comparison (e.line [] []) x.node == 0

end IpEntry

/-- A file; its last line may lack the line feed. -/
structure IpFile where
  lines : List IpEntry
  last : Option IpEntry
  sorted : (lines ++ last.toList).Pairwise fun a b => a.stop.value < b.start.value

namespace IpFile
variable (file : IpFile)

def text : Text :=
  file.lines.flatMap (fun e => e.text ++ ['\n']) ++ (file.last.map IpEntry.text).getD []

/-- The line of an address. -/
def owner (x : Quad) : Option IpEntry := (file.lines ++ file.last.toList).find? (·.holds x)

end IpFile

/-- The file is loaded, and the answer for the address is the area of its line. -/
def Right (heap : Char) (file : IpFile) (x : Quad) : Prop :=
  ∃ ipv, load heap file.text = some ipv ∧
    findIp ipv x.text = some ((file.owner x).map IpEntry.area)

/-! ### When it is right -/

/-- The areas of the lines; an empty one is that of the line before. -/
def carried : Text → List IpEntry → List Text
  | _, [] => []
  | area, e :: es =>
      let area' := if e.area = [] then area else e.area
      area' :: carried area' es

/-- The areas of a line have room in the variables; behind an empty one the second is not read. -/
def IpEntry.Short (e : IpEntry) : Prop :=
  e.area = [] ∨ (e.area.length < 64 ∧ e.second.length < 64)

/-- The lines are loaded: the first one gives both areas a value. -/
def Loads (lines : List IpEntry) : Prop :=
  (∀ e ∈ lines, e.Short) ∧ ∀ e ∈ lines.head?, e.area ≠ [] ∧ e.second ≠ []

/-- Of the lines in the middle, on the way to the place of the address, the first one that admits
it has the area of its line; if there is none, the address has no line. -/
def Found (file : IpFile) (x : Quad) : Prop :=
  match (halves (file.lines.countP (·.start.value ≤ x.value)) 0 file.lines.length).find?
      fun m => file.lines[m]?.any (·.admits x) with
  | some m => ∃ e, file.owner x = some e ∧ (carried [] file.lines)[m]? = some e.area
  | none => file.owner x = none

/-! ### The comparison -/

theorem flag_cases (start stop : Ipnode) :
    (flag start stop = 1 ∧ start.ip1 < stop.ip1) ∨
    (flag start stop = 2 ∧ stop.ip1 ≤ start.ip1 ∧ start.ip2 < stop.ip2) ∨
    (flag start stop = 3 ∧ stop.ip1 ≤ start.ip1 ∧ stop.ip2 ≤ start.ip2 ∧ start.ip3 < stop.ip3) ∨
    (flag start stop = 4 ∧ stop.ip1 ≤ start.ip1 ∧ stop.ip2 ≤ start.ip2 ∧
      stop.ip3 ≤ start.ip3) := by
  unfold flag
  split_ifs <;> simp <;> omega

/-- The comparison points at the place of an address that it does not admit. -/
theorem comparison_cases {start stop x : Ipnode} {area1 area2 : Text} (hstart : start.Octets)
    (hstop : stop.Octets) (hx : x.Octets) (hord : start.value ≤ stop.value) :
    comparison ⟨start, stop, area1, area2, flag start stop⟩ x = 0 ∨
    (comparison ⟨start, stop, area1, area2, flag start stop⟩ x = 2 ∧ x.value < start.value) ∨
    (comparison ⟨start, stop, area1, area2, flag start stop⟩ x = 1 ∧ stop.value < x.value) := by
  obtain ⟨s1, s2, s3, s4⟩ := start
  obtain ⟨e1, e2, e3, e4⟩ := stop
  obtain ⟨x1, x2, x3, x4⟩ := x
  simp only [Ipnode.Octets, Ipnode.value] at *
  unfold comparison
  -- by the first octet in which the ends differ
  rcases flag_cases ⟨s1, s2, s3, s4⟩ ⟨e1, e2, e3, e4⟩ with ⟨hf, h⟩ | ⟨hf, h⟩ | ⟨hf, h⟩ | ⟨hf, h⟩
  all_goals
    simp only [hf, true_and, false_and, or_false, false_or, Nat.reduceEqDiff] at h ⊢
    split_ifs with hadmits hbefore
    · exact .inl rfl
    · exact .inr (.inl ⟨rfl, by omega⟩)
    · exact .inr (.inr ⟨rfl, by omega⟩)

/-! ### Reading fields -/

section Fields
variable {c : Char} {size n : Nat} {f s : Text}

/-- A field is stored, and the scan goes on behind it. -/
theorem scanSets_field (hc : c ∉ f) (hne : f ≠ []) (hsize : f.length < size) :
    scanSets c size (n + 1) (f ++ c :: s) = (scanSets c size n s).map (f :: ·) := by
  simp [scanSets, takeWhile_ne_append hc, dropWhile_ne_append hc, hne, Nat.not_le.mpr hsize]

/-- The last field. -/
theorem scanSets_last (hc : c ∉ f) (hne : f ≠ []) (hsize : f.length < size) :
    scanSets c size (n + 1) f = some [f] := by
  simp [scanSets, takeWhile_ne hc, dropWhile_ne hc, hne, Nat.not_le.mpr hsize]

theorem octet_field (hf : IsOctet f) : octet f = decimal f := by
  obtain ⟨hpos, hlen, hdigit, hmost⟩ := hf
  have hread := sscanfInt_digits (List.length_pos_iff.mp hpos) hdigit (by omega)
  obtain ⟨v, hv, hint⟩ := Option.map_eq_some_iff.mp hread
  rw [octet, atoi, hv, Option.getD_some, hint]
  omega

theorem octet_clean (hf : IsOctet f) (hc : c.isDigit = false) : c ∉ f := by
  intro hm
  have hdigit := hf.2.2.1 c hm
  rw [hc] at hdigit
  cases hdigit

namespace Quad
variable (q : Quad)

/-- The variables that hold the octets. -/
def fields : List (Option Text) := [some q.f1, some q.f2, some q.f3, some q.f4]

theorem scanInto_text {vars : List (Option Text)} (hvars : vars.length = 4) :
    scanInto '.' 8 vars q.text = some q.fields := by
  obtain ⟨h1, h2, h3, h4⟩ := q.octets
  have hfield : ∀ f, IsOctet f → '.' ∉ f ∧ f ≠ [] ∧ f.length < 8 := fun f hf =>
    ⟨octet_clean hf (by decide), List.length_pos_iff.mp hf.1, by have := hf.2.1; omega⟩
  have hscan : scanSets '.' 8 4 q.text = some [q.f1, q.f2, q.f3, q.f4] := by
    rw [text, scanSets_field (hfield _ h1).1 (hfield _ h1).2.1 (hfield _ h1).2.2,
      scanSets_field (hfield _ h2).1 (hfield _ h2).2.1 (hfield _ h2).2.2,
      scanSets_field (hfield _ h3).1 (hfield _ h3).2.1 (hfield _ h3).2.2,
      scanSets_last (hfield _ h4).1 (hfield _ h4).2.1 (hfield _ h4).2.2]
    rfl
  rw [scanInto, hscan, Option.map_some, List.drop_of_length_le (by simp [hvars])]
  rfl

theorem node_fields : IpArea.node q.fields = some q.node := by
  obtain ⟨h1, h2, h3, h4⟩ := q.octets
  simp [fields, IpArea.node, node, octet_field h1, octet_field h2, octet_field h3, octet_field h4]

theorem octets_node : q.node.Octets := by
  obtain ⟨h1, h2, h3, h4⟩ := q.octets
  exact ⟨Nat.lt_succ_of_le h1.2.2.2, Nat.lt_succ_of_le h2.2.2.2, Nat.lt_succ_of_le h3.2.2.2,
    Nat.lt_succ_of_le h4.2.2.2⟩

/-- A quad has digits and dots only, up to fifteen of them. -/
theorem text_clean (hc : c.isDigit = false) (hdot : c ≠ '.') :
    c ∉ q.text ∧ q.text ≠ [] ∧ q.text.length < 64 := by
  obtain ⟨h1, h2, h3, h4⟩ := q.octets
  refine ⟨?_, by simp [text], ?_⟩
  · simp [text, octet_clean h1 hc, octet_clean h2 hc, octet_clean h3 hc, octet_clean h4 hc, hdot]
  · have := h1.2.1
    have := h2.2.1
    have := h3.2.1
    have := h4.2.1
    simp [text]
    omega

end Quad

/-- What is stored of the areas. -/
theorem scanSets_tail (e : IpEntry) : scanSets '|' 64 2 e.tail =
    if e.area = [] then some []
    else if 64 ≤ e.area.length then none
    else if e.second = [] then some [e.area]
    else if 64 ≤ e.second.length then none
    else some [e.area, e.second] := by
  obtain hdrop | ⟨d, rest, hdrop⟩ : e.tail.dropWhile (· != '|') = [] ∨
      ∃ d rest, e.tail.dropWhile (· != '|') = d :: rest := by
    cases e.tail.dropWhile (· != '|') with
    | nil => exact .inl rfl
    | cons d rest => exact .inr ⟨d, rest, rfl⟩
  · simp [IpEntry.area, IpEntry.second, cut, scanSets, hdrop]
  · simp only [IpEntry.area, IpEntry.second, cut, scanSets, hdrop, List.drop_succ_cons,
      List.drop_zero]
    split_ifs
    · rfl
    · rfl
    · rfl
    · rfl
    · cases rest.dropWhile (· != '|') <;> rfl

end Fields

/-! ### Loading -/

/-- The lines as they are loaded behind these areas. -/
def loaded : Text → Text → List IpEntry → List Ipline
  | _, _, [] => []
  | area1, area2, e :: es =>
      let a1 := if e.area = [] then area1 else e.area
      let a2 := if e.area = [] ∨ e.second = [] then area2 else e.second
      e.line a1 a2 :: loaded a1 a2 es

section Loading
variable {e : IpEntry} {es : List IpEntry} {area1 area2 : Option Text} {p q : Option Text}
  {tmp : List (Option Text)} {v : Vars} {heap : Char} {s line rest : Text}

/-- The areas behind a line. -/
def areasBehind (area1 area2 : Option Text) (e : IpEntry) : Option Text × Option Text :=
  (if e.area = [] then area1 else some e.area,
    if e.area = [] ∨ e.second = [] then area2 else some e.second)

theorem scanInto_line (hshort : e.Short) : scanInto '|' 64 [p, q, area1, area2] e.text
    = some [some e.start.text, some e.stop.text, (areasBehind area1 area2 e).1,
      (areasBehind area1 area2 e).2] := by
  obtain ⟨hs, hsne, hslen⟩ := e.start.text_clean (c := '|') (by decide) (by decide)
  obtain ⟨ht, htne, htlen⟩ := e.stop.text_clean (c := '|') (by decide) (by decide)
  rw [scanInto, IpEntry.text, scanSets_field hs hsne hslen, scanSets_field ht htne htlen,
    scanSets_tail, areasBehind]
  by_cases harea : e.area = []
  · simp [harea]
  obtain ⟨hlen1, hlen2⟩ : e.area.length < 64 ∧ e.second.length < 64 := hshort.resolve_left harea
  by_cases hsecond : e.second = []
  · simp [harea, hsecond, Nat.not_le.mpr hlen1]
  · simp [harea, hsecond, Nat.not_le.mpr hlen1, Nat.not_le.mpr hlen2]

theorem scanInto_line_long (hlong : ¬ e.Short) :
    scanInto '|' 64 [p, q, area1, area2] e.text = none := by
  obtain ⟨hs, hsne, hslen⟩ := e.start.text_clean (c := '|') (by decide) (by decide)
  obtain ⟨ht, htne, htlen⟩ := e.stop.text_clean (c := '|') (by decide) (by decide)
  rw [IpEntry.Short, not_or, not_and_or, Nat.not_lt, Nat.not_lt] at hlong
  obtain ⟨harea, hlong⟩ := hlong
  have hscan : scanSets '|' 64 2 e.tail = none := by
    rw [scanSets_tail, if_neg harea]
    by_cases hlen : 64 ≤ e.area.length
    · rw [if_pos hlen]
    · have hsecond := hlong.resolve_left hlen
      have hne : e.second ≠ [] := fun h => by simp [h] at hsecond
      rw [if_neg hlen, if_neg hne, if_pos hsecond]
  rw [scanInto, IpEntry.text, scanSets_field hs hsne hslen, scanSets_field ht htne htlen, hscan]
  rfl

/-- A line is loaded when its areas have room and a value. -/
theorem loadLine_eq_some_iff {r : Ipline × Vars} (htmp : tmp.length = 4) :
    loadLine ⟨[p, q, area1, area2], tmp⟩ e.text = some r ↔
      e.Short ∧ ∃ a1 a2, areasBehind area1 area2 e = (some a1, some a2) ∧
        r = (e.line (a1.take 63) (a2.take 63),
          ⟨[some e.start.text, some e.stop.text, some a1, some a2], e.stop.fields⟩) := by
  by_cases hshort : e.Short
  · rw [loadLine, scanInto_line hshort, Option.bind_some]
    obtain ⟨a1, a2, hareas⟩ : ∃ a1 a2, areasBehind area1 area2 e = (a1, a2) := ⟨_, _, rfl⟩
    rw [hareas]
    cases a1 with
    | none => simp
    | some a1 =>
        cases a2 with
        | none => simp
        | some a2 =>
            -- the ends of a line set all four variables, whatever these hold
            have hload : ∀ vars, vars.length = 4 →
                ((scanInto '.' 8 vars e.start.text).bind fun tmp =>
                  (node tmp).bind fun start =>
                    (scanInto '.' 8 tmp e.stop.text).bind fun tmp =>
                      (node tmp).map fun stop =>
                        ((⟨start, stop, a1.take 63, a2.take 63, flag start stop⟩ : Ipline),
                          (⟨[some e.start.text, some e.stop.text, some a1, some a2], tmp⟩ : Vars)))
                  = some (e.line (a1.take 63) (a2.take 63),
                    ⟨[some e.start.text, some e.stop.text, some a1, some a2], e.stop.fields⟩) := by
              intro vars hvars
              rw [e.start.scanInto_text hvars, Option.bind_some, e.start.node_fields,
                Option.bind_some, e.stop.scanInto_text rfl, Option.bind_some, e.stop.node_fields]
              rfl
            dsimp only
            rw [hload tmp htmp]
            simp [hshort, eq_comm]
  · rw [loadLine, scanInto_line_long hshort]
    simp [hshort]

theorem loadFrom_append (hs : '\n' ∉ s ∧ nul ∉ s) :
    loadFrom v line (s ++ rest) = loadFrom v (line ++ s) rest := by
  induction s generalizing line with
  | nil => simp
  | cons c s ih =>
      simp only [List.mem_cons, not_or] at hs
      rw [List.cons_append, loadFrom, if_neg (Ne.symm hs.1.1), if_neg (Ne.symm hs.2.1),
        ih ⟨hs.1.2, hs.2.2⟩, List.append_assoc, List.singleton_append]

theorem text_clean (e : IpEntry) : '\n' ∉ e.text ∧ nul ∉ e.text := by
  have hfeed := fun q : Quad => (q.text_clean (c := '\n') (by decide) (by decide)).1
  have hnul := fun q : Quad => (q.text_clean (c := nul) (by decide) (by decide)).1
  exact ⟨by simp [IpEntry.text, hfeed, e.clean.1],
    by simp [IpEntry.text, hnul, e.clean.2, show nul ≠ '|' by decide]⟩

theorem loadFrom_line : loadFrom v [] (e.text ++ '\n' :: rest)
    = (loadLine v e.text).bind fun r => (loadFrom r.2 [] rest).map (r.1 :: ·) := by
  rw [loadFrom_append (text_clean e), List.nil_append, loadFrom, if_pos rfl]

/-- The end of the file, with a line that does not end. -/
theorem loadFrom_end {ipv : List Ipline} (hs : '\n' ∉ s ∧ nul ∉ s) :
    loadFrom v [] (s ++ [heap]) = some ipv ↔ heap = nul ∧ ipv = [] := by
  rw [loadFrom_append hs, List.nil_append, loadFrom]
  split
  next hfeed =>
    subst hfeed
    simp [loadFrom, show ('\n' : Char) ≠ nul by decide]
  next =>
    split
    next hnul => simp [hnul, eq_comm]
    next hother => simp [loadFrom, hother]

theorem load_cons {ipv : List Ipline} (htmp : tmp.length = 4) :
    loadFrom ⟨[p, q, area1, area2], tmp⟩ []
        ((e :: es).flatMap (fun e => e.text ++ ['\n']) ++ rest) = some ipv ↔
      e.Short ∧ ∃ a1 a2, areasBehind area1 area2 e = (some a1, some a2) ∧
        ∃ ipv', loadFrom ⟨[some e.start.text, some e.stop.text, some a1, some a2], e.stop.fields⟩ []
            (es.flatMap (fun e => e.text ++ ['\n']) ++ rest) = some ipv' ∧
          ipv = e.line (a1.take 63) (a2.take 63) :: ipv' := by
  have htext : (e :: es).flatMap (fun e => e.text ++ ['\n']) ++ rest
      = e.text ++ '\n' :: (es.flatMap (fun e => e.text ++ ['\n']) ++ rest) := by simp
  rw [htext, loadFrom_line, Option.bind_eq_some_iff]
  simp only [loadLine_eq_some_iff htmp, Option.map_eq_some_iff]
  constructor
  · rintro ⟨r, ⟨hshort, a1, a2, hareas, rfl⟩, ipv', hrest, rfl⟩
    exact ⟨hshort, a1, a2, hareas, ipv', hrest, rfl⟩
  · rintro ⟨hshort, a1, a2, hareas, ipv', hrest, rfl⟩
    exact ⟨_, ⟨hshort, a1, a2, hareas, rfl⟩, ipv', hrest, rfl⟩

theorem IpEntry.Short.area_le (hshort : e.Short) : e.area.length ≤ 63 := by
  rcases hshort with h | h
  · simp [h]
  · omega

theorem IpEntry.Short.second_le (hshort : e.Short) (harea : e.area ≠ []) :
    e.second.length ≤ 63 :=
  Nat.le_of_lt_succ (hshort.resolve_left harea).2

/-- Lines behind a line. -/
theorem load_lines {ipv : List Ipline} (hs : '\n' ∉ s ∧ nul ∉ s) {a1 a2 : Text}
    (h1 : a1.length ≤ 63) (h2 : a2.length ≤ 63) (htmp : tmp.length = 4) :
    loadFrom ⟨[p, q, some a1, some a2], tmp⟩ []
        (es.flatMap (fun e => e.text ++ ['\n']) ++ (s ++ [heap])) = some ipv ↔
      (heap = nul ∧ ∀ e ∈ es, e.Short) ∧ ipv = loaded a1 a2 es := by
  induction es generalizing p q a1 a2 tmp ipv with
  | nil => simp [loadFrom_end hs, loaded]
  | cons e es ih =>
      rw [load_cons htmp, List.forall_mem_cons, loaded]
      by_cases hshort : e.Short
      · have hareas : areasBehind (some a1) (some a2) e =
            (some (if e.area = [] then a1 else e.area),
              some (if e.area = [] ∨ e.second = [] then a2 else e.second)) := by
          rw [areasBehind]
          split_ifs <;> rfl
        have hlen1 : (if e.area = [] then a1 else e.area).length ≤ 63 := by
          split
          · exact h1
          · exact hshort.area_le
        have hlen2 : (if e.area = [] ∨ e.second = [] then a2 else e.second).length ≤ 63 := by
          split
          next => exact h2
          next h => exact hshort.second_le fun harea => h (.inl harea)
        rw [hareas]
        constructor
        · rintro ⟨-, b1, b2, hb, ipv', hrest, rfl⟩
          obtain ⟨rfl, rfl⟩ : _ = b1 ∧ _ = b2 := by simpa using hb
          obtain ⟨⟨hheap, hshorts⟩, rfl⟩ := (ih hlen1 hlen2 rfl).mp hrest
          rw [List.take_of_length_le hlen1, List.take_of_length_le hlen2]
          exact ⟨⟨hheap, hshort, hshorts⟩, rfl⟩
        · rintro ⟨⟨hheap, -, hshorts⟩, rfl⟩
          refine ⟨hshort, _, _, rfl, _, (ih hlen1 hlen2 rfl).mpr ⟨⟨hheap, hshorts⟩, rfl⟩, ?_⟩
          rw [List.take_of_length_le hlen1, List.take_of_length_le hlen2]
      · simp [hshort]

/-- A file is loaded when the byte behind it ends it and its areas have room and a value. -/
theorem load_eq_some_iff {file : IpFile} {ipv : List Ipline} :
    load heap file.text = some ipv ↔
      (heap = nul ∧ Loads file.lines) ∧ ipv = loaded [] [] file.lines := by
  have hlast : '\n' ∉ (file.last.map IpEntry.text).getD [] ∧
      nul ∉ (file.last.map IpEntry.text).getD [] := by
    cases file.last with
    | none => simp
    | some e => exact text_clean e
  rw [load, IpFile.text, List.append_assoc, unset]
  cases file.lines with
  | nil => simpa [Loads, loaded] using loadFrom_end hlast
  | cons e es =>
      rw [show List.replicate 4 (none : Option Text) = [none, none, none, none] from rfl,
        load_cons rfl, Loads, List.forall_mem_cons]
      by_cases hvalue : e.area ≠ [] ∧ e.second ≠ []
      · obtain ⟨harea, hsecond⟩ := hvalue
        have hareas : areasBehind none none e = (some e.area, some e.second) := by
          simp [areasBehind, harea, hsecond]
        have hloaded : loaded [] [] (e :: es)
            = e.line e.area e.second :: loaded e.area e.second es := by
          simp [loaded, harea, hsecond]
        rw [hareas, hloaded]
        constructor
        · rintro ⟨hshort, b1, b2, hb, ipv', hrest, rfl⟩
          obtain ⟨rfl, rfl⟩ : e.area = b1 ∧ e.second = b2 := by simpa using hb
          have hlen1 := hshort.area_le
          have hlen2 := hshort.second_le harea
          obtain ⟨⟨hheap, hshorts⟩, rfl⟩ := (load_lines hlast hlen1 hlen2 rfl).mp hrest
          rw [List.take_of_length_le hlen1, List.take_of_length_le hlen2]
          exact ⟨⟨hheap, ⟨hshort, hshorts⟩, by simp [harea, hsecond]⟩, rfl⟩
        · rintro ⟨⟨hheap, ⟨hshort, hshorts⟩, -⟩, rfl⟩
          have hlen1 := hshort.area_le
          have hlen2 := hshort.second_le harea
          refine ⟨hshort, _, _, rfl, _,
            (load_lines hlast hlen1 hlen2 rfl).mpr ⟨⟨hheap, hshorts⟩, rfl⟩, ?_⟩
          rw [List.take_of_length_le hlen1, List.take_of_length_le hlen2]
      · refine iff_of_false ?_ fun h => hvalue (h.1.2.2 e rfl)
        rintro ⟨-, b1, b2, hb, -⟩
        refine hvalue ⟨fun harea => ?_, fun hsecond => ?_⟩
        · simp [areasBehind, harea] at hb
        · simp [areasBehind, hsecond] at hb

end Loading

/-! ### Searching -/

section Searching
variable {es : List IpEntry} {m : Nat} {x : Quad}

/-- What is loaded from a line. -/
theorem getElem?_loaded {e : IpEntry} {a1 a2 : Text} (he : es[m]? = some e) :
    ∃ b1 b2, (loaded a1 a2 es)[m]? = some (e.line b1 b2) ∧ (carried a1 es)[m]? = some b1 := by
  induction es generalizing m a1 a2 with
  | nil => simp at he
  | cons d es ih =>
      cases m with
      | zero =>
          obtain rfl : d = e := by simpa using he
          exact ⟨_, _, rfl, rfl⟩
      | succ m => exact ih (by simpa using he)

theorem length_loaded : ∀ {es : List IpEntry} {a1 a2 : Text}, (loaded a1 a2 es).length = es.length
  | [], _, _ => rfl
  | e :: es, _, _ => by rw [loaded, List.length_cons, length_loaded, List.length_cons]

/-- The probe of a line. -/
theorem probe_loaded {e : IpEntry} (he : es[m]? = some e) :
    (probe (loaded [] [] es) x.node m).found?
        = (if e.admits x then (carried [] es)[m]? else none) ∧
      ((∃ a, probe (loaded [] [] es) x.node m = .found a) ∨
        (probe (loaded [] [] es) x.node m = .left ∧ x.value < e.start.value) ∨
        (probe (loaded [] [] es) x.node m = .right ∧ e.stop.value < x.value)) := by
  obtain ⟨b1, b2, hline, harea⟩ : ∃ b1 b2, (loaded [] [] es)[m]? = some (e.line b1 b2) ∧
      (carried [] es)[m]? = some b1 := getElem?_loaded he
  have hcmp : comparison (e.line b1 b2) x.node = 0 ∨
      (comparison (e.line b1 b2) x.node = 2 ∧ x.value < e.start.value) ∨
      (comparison (e.line b1 b2) x.node = 1 ∧ e.stop.value < x.value) :=
    comparison_cases e.start.octets_node e.stop.octets_node x.octets_node e.ordered
  have hadmits : e.admits x = (comparison (e.line b1 b2) x.node == 0) := rfl
  have hprobe : probe (loaded [] [] es) x.node m
      = if comparison (e.line b1 b2) x.node = 2 then .left
        else if comparison (e.line b1 b2) x.node = 1 then .right else .found b1 := by
    rw [probe, hline]
    rfl
  rw [hprobe, hadmits, harea]
  rcases hcmp with h | ⟨h, hlt⟩ | ⟨h, hlt⟩
  · exact ⟨by simp [h, Probe.found?], .inl ⟨b1, by simp [h]⟩⟩
  · exact ⟨by simp [h, Probe.found?], .inr (.inl ⟨by simp [h], hlt⟩)⟩
  · exact ⟨by simp [h, Probe.found?], .inr (.inr ⟨by simp [h], hlt⟩)⟩

theorem isSome_carried : ∀ {es : List IpEntry} {m : Nat} {area : Text}, m < es.length →
    ((carried area es)[m]?).isSome = true := by
  intro es m area hm
  obtain ⟨b1, b2, -, harea⟩ : ∃ b1 b2, (loaded area [] es)[m]? = some (es[m].line b1 b2) ∧
      (carried area es)[m]? = some b1 := getElem?_loaded (List.getElem?_eq_getElem hm)
  simp [harea]

variable {file : IpFile}

/-- The lines that start at the address or before it come first. -/
theorem IpFile.lt_place (file : IpFile) (x : Quad) {e : IpEntry} (he : file.lines[m]? = some e) :
    m < file.lines.countP (·.start.value ≤ x.value) ↔ e.start.value ≤ x.value := by
  have hsorted : file.lines.Pairwise fun a b => decide (b.start.value ≤ x.value) = true →
      decide (a.start.value ≤ x.value) = true := by
    refine (List.pairwise_append.mp file.sorted).1.imp fun {a b} hab hb => ?_
    have hord := a.ordered
    rw [decide_eq_true_eq] at hb ⊢
    omega
  rw [lt_countP_iff hsorted he, decide_eq_true_eq]

/-- The answer is the area of the first line on the way that admits the address. -/
theorem findIp_loaded (file : IpFile) (x : Quad) : findIp (loaded [] [] file.lines) x.text
    = some (((halves (file.lines.countP (·.start.value ≤ x.value)) 0 file.lines.length).find?
        fun m => file.lines[m]?.any (·.admits x)).bind ((carried [] file.lines)[·]?)) := by
  have hline : ∀ m, m < file.lines.length → ∃ e, file.lines[m]? = some e := fun m hm =>
    ⟨_, List.getElem?_eq_getElem hm⟩
  have hsearch : search (probe (loaded [] [] file.lines) x.node) 0 file.lines.length
      = (halves (file.lines.countP (·.start.value ≤ x.value)) 0 file.lines.length).findSome?
        fun m => (probe (loaded [] [] file.lines) x.node m).found? := by
    refine search_eq fun m _ hm => ?_
    obtain ⟨e, he⟩ := hline m hm
    have hplace := file.lt_place x he
    have hord := e.ordered
    rcases (probe_loaded (x := x) he).2 with hfound | ⟨hleft, hlt⟩ | ⟨hright, hlt⟩
    · exact .inl hfound
    -- a probe that points left is at a line behind the place, and one that points right before it
    · exact .inr (.inl ⟨hleft, Nat.not_lt.mp fun h => by have := hplace.mp h; omega⟩)
    · exact .inr (.inr ⟨hright, hplace.mpr (by omega)⟩)
  have hfirst := findSome?_eq_bind
    (l := halves (file.lines.countP (·.start.value ≤ x.value)) 0 file.lines.length)
    (p := fun m => file.lines[m]?.any (·.admits x)) (g := ((carried [] file.lines)[·]?))
    (f := fun m => (probe (loaded [] [] file.lines) x.node m).found?) (fun m hm => ?_)
    fun m hm _ => isSome_carried (mem_window hm).2
  · rw [findIp, length_loaded, x.scanInto_text rfl, Option.bind_some, x.node_fields,
      Option.map_some, hsearch, hfirst]
    split
    next hnil =>
      have hlen := congrArg List.length hnil
      rw [length_loaded, List.length_nil] at hlen
      rw [hlen, halves]
      rfl
    next => rfl
  · obtain ⟨e, he⟩ := hline m (mem_window hm).2
    simp [(probe_loaded (x := x) he).1, he]

/-- The file is loaded and the answer right exactly when the byte behind the file ends it, the
areas have room and a value, and the search meets no other line that admits the address. -/
theorem located_iff (heap : Char) (file : IpFile) (x : Quad) :
    Right heap file x ↔ heap = nul ∧ Loads file.lines ∧ Found file x := by
  have hanswer : findIp (loaded [] [] file.lines) x.text
      = some ((file.owner x).map IpEntry.area) ↔ Found file x := by
    rw [findIp_loaded, Option.some.injEq, Found]
    cases hfind : (halves (file.lines.countP (·.start.value ≤ x.value)) 0
        file.lines.length).find? fun m => file.lines[m]?.any (·.admits x) with
    | none => exact eq_comm.trans Option.map_eq_none_iff
    | some m =>
        have hm := (mem_window (List.mem_of_find?_eq_some hfind)).2
        obtain ⟨area, harea⟩ : ∃ area, (carried [] file.lines)[m]? = some area :=
          Option.isSome_iff_exists.mp (isSome_carried hm)
        simp only [Option.bind_some, harea, eq_comm (a := some area), Option.map_eq_some_iff,
          Option.some.injEq]
  simp only [Right, load_eq_some_iff]
  constructor
  · rintro ⟨ipv, ⟨⟨hheap, hloads⟩, rfl⟩, hfind⟩
    exact ⟨hheap, hloads, hanswer.mp hfind⟩
  · rintro ⟨hheap, hloads, hfound⟩
    exact ⟨_, ⟨⟨hheap, hloads⟩, rfl⟩, hanswer.mpr hfound⟩

end Searching

/-- `1.0.0.n`. -/
def quad (n : Text) (hn : IsOctet n) : Quad :=
  ⟨"1".toList, "0".toList, "0".toList, n, by decide, by decide, by decide, hn⟩

/-- A file of one line, `1.0.0.0|1.0.0.9|A|B`. -/
def oneLine : IpFile where
  lines := [⟨quad "0".toList (by decide), quad "9".toList (by decide), "A|B".toList, by decide,
    by decide⟩]
  last := none
  sorted := by simp

/-- The first line is not found. -/
theorem oneLine_missed : ¬ Right nul oneLine (quad "7".toList (by decide)) := by
  rintro ⟨ipv, hload, hfind⟩
  obtain ⟨-, rfl⟩ := load_eq_some_iff.mp hload
  rw [findIp_loaded] at hfind
  have hnone : halves (oneLine.lines.countP
      (·.start.value ≤ (quad "7".toList (by decide)).value)) 0 1 = [] := by
    rw [halves, if_neg (by decide)]
  have howner : (oneLine.owner (quad "7".toList (by decide))).map IpEntry.area
      = some "A".toList := by decide +kernel
  have hlen : oneLine.lines.length = 1 := rfl
  rw [howner, hlen, hnone] at hfind
  exact nomatch hfind

end Edm.Cachedb.IpArea

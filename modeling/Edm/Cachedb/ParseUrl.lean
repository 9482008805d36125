import Edm.Cachedb.IpArea
import Edm.Deliver.Edcode
import Edm.Support.Rewrite

/-!
# Cachedb — ParseUrl

How `ParseRequest::ParseMessage` reads an event: a mail that was opened (`test2.php`) or a link that
was clicked.  The parameters are searched in the text and copied into arrays of fixed size, each copy
bounded by the length of the parameter.

The reader is `none` where a copy does not fit its array, where an array is used that nothing was
copied into, and where something outside the message is read.  `isSome_parseUrl_iff` tells for which
texts it is not.  The time and the number of an event are left out.
-/

namespace Edm.Cachedb.ParseUrl

open Support IpArea

/-! ### The parts of the function -/

/-- The members and globals that are read: `m_map_ip`, the address from which a mailbox opened a
mail, and `vec_ip`, whose areas are in arrays of 64 bytes. -/
structure Parser where
  m_map_ip : List (Text × Text)
  vec_ip : List Ipline
  areasFit : ∀ line ∈ vec_ip, line.area1.length ≤ 63

/-- `snprintf(buf, bound, "%s", s)` for an array of `room` bytes. -/
def snprintf (room bound : Nat) (s : Text) : Option Text :=
  if room < min bound (s.length + 1) then none else some (s.take (bound - 1))

/-- Search, scan and copy of a parameter; `some none` when it is not in the text. -/
def param (name : Text) (room : Nat) (s : Text) : Option (Option Text) :=
  match strstr name s with
  | none => some none
  | some t =>
      let start := t.drop name.length
      let len := (start.takeWhile (· != '&')).length
      (snprintf room (len + 1) start).map some

/-- The same for `url=`, which goes on to the end of the text. -/
def readUrl (s : Text) : Option (Option Text) :=
  match strstr "url=".toList s with
  | none => some none
  | some t => (snprintf 256 ((t.drop 4).length + 1) (t.drop 4)).map some

/-- The arrays that have a value, and `area`. -/
structure Params where
  email : Option Text
  corpid : Option Text
  templateid : Option Text
  taskid : Option Text
  r_ip : Option Text
  area : Text
  sbflag : Option Text
  osid : Option Text
  slangid : Option Text
  browserid : Option Text

/-- `find_ip` into `area[100] = {0}`. -/
def findArea (p : Parser) (r_ip : Option Text) : Option Text :=
  r_ip.elim (some []) fun ip => (findIp p.vec_ip ip).map fun area => area.getD []

/-- The parameters of an event; `&f=` is read of a click. -/
def readParams (p : Parser) (click : Bool) (s : Text) : Option Params :=
  (param "&e=".toList 128 s).bind fun email =>
  (param "&c=".toList 64 s).bind fun corpid =>
  (param "&te=".toList 64 s).bind fun templateid =>
  (param "&ta=".toList 64 s).bind fun taskid =>
  (param "&ip=".toList 64 s).bind fun r_ip =>
  (findArea p r_ip).bind fun area =>
  (if click then param "&f=".toList 2 s else some none).bind fun sbflag =>
  (param "&oid=".toList 2 s).bind fun osid =>
  (param "&lid=".toList 2 s).bind fun slangid =>
  (param "&bid=".toList 2 s).map fun browserid =>
    ⟨email, corpid, templateid, taskid, r_ip, area, sbflag, osid, slangid, browserid⟩

/-- `flag_c && flag_e && flag_ta && flag_te && flag_i && flag_bf && flag_lf && flag_of`. -/
def Params.complete (q : Params) : Bool :=
  q.corpid.isSome && q.email.isSome && q.taskid.isSome && q.templateid.isSome && q.r_ip.isSome &&
    q.browserid.isSome && q.slangid.isSome && q.osid.isSome

/-- `struct url_node`, as far as it is set. -/
structure Node where
  mail : Text
  area : Text
  url : Option Text
  corp_id : Int
  template_id : Int
  task_id : Int
  tag : Option Nat
  osid : Nat
  browserid : Nat
  slangid : Nat
  deriving DecidableEq

/-- The node of complete parameters.  The bound of each copy is one byte more than the array has. -/
def Params.node (q : Params) (tag : Option Nat) (url : Option Text) : Option Node :=
  (snprintf 128 129 (q.email.getD [])).bind fun mail =>
  (snprintf 64 65 q.area).bind fun area =>
  (url.elim (some none) fun url => (snprintf 256 257 url).map some).map fun url =>
    { mail := mail
      area := area
      url := url
      corp_id := atoi (q.corpid.getD [])
      template_id := atoi (q.templateid.getD [])
      task_id := atoi (q.taskid.getD [])
      tag := tag
      osid := octet (q.osid.getD [])
      browserid := octet (q.browserid.getD [])
      slangid := octet (q.slangid.getD []) }

/-- `insert_label_inf`: what is sent, out of a `buffer` of 512 bytes. -/
def insertLabelInf (labels email : Text) (action : Char) : Option Text :=
  let bytes := "GET /insert?label=".toList ++ labels ++ "&email=".toList ++ email
    ++ "&action=".toList ++ [action] ++ " HTTP/1.1\r\n\r\n".toList
  if 512 < bytes.length then none else some bytes

/-- What is done with an event. -/
structure Done where
  list_url : Option Node
  /-- `m_map_ip[email] = r_ip` -/
  opened : Option (Text × Text)
  /-- to the label server -/
  sent : Option Text
  deriving DecidableEq

def Done.nothing : Done := ⟨none, none, none⟩

/-- The mail was opened: the parameters from `test2.php` on. -/
def openMail (p : Parser) (labels : Option Text) (test2 : Text) : Option Done :=
  (readParams p false test2).bind fun q =>
    if q.complete then
      (q.node (some 2) none).bind fun node =>
      labels.bind fun labels =>
      (insertLabelInf labels (q.email.getD []) '1').map fun sent =>
        ⟨some node, some (q.email.getD [], q.r_ip.getD []), some sent⟩
    else some .nothing

/-- `node->tag` of a click; another letter leaves it unset. -/
def clickTag : Option Text → Option Nat
  | none => some 1
  | some sbflag =>
      if sbflag.head? = some 'u' then some 3
      else if sbflag.head? = some 'c' then some 4
      else if sbflag.head? = some 'f' then some 5
      else none

/-- A link was clicked: the parameters behind the first `&&`, which is searched beyond a NUL, and the
url in front of it. -/
def clickLink (p : Parser) (labels : Option Text) (req : Text) : Option Done :=
  (breakAt "&&".toList req).bind fun halves =>
  (readUrl (cstr halves.1)).bind fun url =>
  (readParams p true (cstr halves.2)).bind fun q =>
    if q.complete && url.isSome then
      (q.node (clickTag q.sbflag) url).bind fun node =>
      labels.bind fun labels =>
      (insertLabelInf labels (q.email.getD []) '2').map fun sent => ⟨some node, none, some sent⟩
    else some .nothing

/-- `strcasestr(email, s)`. -/
def strcasestr (email s : Text) : Bool := (strstr (tolower s) (tolower email)).isSome

def isQQ (email : Text) : Bool :=
  strcasestr email "@qq.com".toList || strcasestr email "@vip.qq.com".toList
    || strcasestr email "@foxmail.com".toList

/-- The address in `m_map_ip`, which is looked up for some domains. -/
def Parser.known (p : Parser) (email : Text) : Option Text :=
  if isQQ email then p.m_map_ip.lookup email else none

/-- `strcmp(m_map_ip[email].c_str(), ip) != 0`, if there is one. -/
def ipError (p : Parser) (email : Text) (ip : Option Text) : Option Bool :=
  (p.known email).elim (some false) fun known => ip.map (cstr known != ·)

/-- From `isQQ` on; `some none` is a return of -1. -/
def track (p : Parser) (req email : Text) (ip : Option Text) : Option (Option Done) :=
  (ipError p email ip).bind fun other =>
    if other then some none
    else if '@' ∉ email then some none
    else (param "&la=".toList 128 (cstr req)).bind fun labels =>
      (match strstr "test2.php".toList (cstr req) with
        | some test2 => openMail p labels test2
        | none => clickLink p labels req).map some

/-- `base64_decode(email, strlen(email))`, the same function as the delivery engine has. -/
def base64Decode (data : Text) : Option Text :=
  (Deliver.Edcode.base64Decode data data.length).map Prod.snd

/-- The loop of `StrReplace`: the first occurrence, over and over; `none` when it goes on. -/
def replaceLoop (oldstr newstr : Text) : Nat → Text → Option Text
  | 0, _ => none
  | fuel + 1, dest =>
      (breakAt oldstr dest).elim (some dest) fun q =>
        replaceLoop oldstr newstr fuel (q.1 ++ (newstr ++ q.2))

def strReplace (src oldstr newstr : Text) : Option Text :=
  if oldstr = newstr then some src else replaceLoop oldstr newstr (src.length + 1) src

/-- The text and the mailbox, when the mailbox is in base 64. -/
def decodeEmail (req email : Text) : Option (Text × Text) :=
  (base64Decode email).bind fun p_email =>
  (strReplace (cstr req) email p_email).bind fun email_decode =>
    if (cstr req).length < email_decode.length then none
    else (snprintf 128 128 p_email).map fun email =>
      -- `memset` of the text, and `strcpy`
      (email_decode ++ List.replicate ((cstr req).length - email_decode.length) nul
        ++ req.drop (cstr req).length, email)

/-- The branch of `COMMOND_REQ_URL`; `req` is the message behind the command. -/
def parseUrl (p : Parser) (req : Text) : Option (Option Done) :=
  (param "&e=".toList 128 (cstr req)).bind fun email =>
  (param "&ip=".toList 128 (cstr req)).bind fun ip =>
  email.bind fun email =>
    if '@' ∈ email then track p req email ip
    else (decodeEmail req email).bind fun r => track p r.1 r.2 ip

/-! ### The texts it is made for -/

/-- The parameter of a name. -/
def value (name s : Text) : Option Text :=
  (strstr name s).map fun t => (t.drop name.length).takeWhile (· != '&')

/-- The url of a text. -/
def urlValue (s : Text) : Option Text := (strstr "url=".toList s).map fun t => t.drop 4

/-- The parameter fits its array, if it is there. -/
def Fits (name : Text) (room : Nat) (s : Text) : Prop :=
  ∀ v, value name s = some v → v.length < room

/-- The parameters every event has, with the sizes of their arrays. -/
def fields : List (Text × Nat) :=
  [("&e=".toList, 128), ("&c=".toList, 64), ("&te=".toList, 64), ("&ta=".toList, 64),
    ("&ip=".toList, 64), ("&oid=".toList, 2), ("&lid=".toList, 2), ("&bid=".toList, 2)]

def Complete (s : Text) : Prop := ∀ q ∈ fields, value q.1 s ≠ none

/-- Four fields with a dot between them, of one to seven characters. -/
def FourFields (ip : Text) : Prop :=
  4 ≤ (ip.splitOn '.').length ∧ ∀ f ∈ (ip.splitOn '.').take 4, f ≠ [] ∧ f.length < 8

/-- The parameters fit, and `find_ip` reads the address. -/
structure Readable (p : Parser) (click : Bool) (s : Text) : Prop where
  fits : ∀ q ∈ fields, Fits q.1 q.2 s
  flag : click = true → Fits "&f=".toList 2 s
  address : ∀ ip, value "&ip=".toList s = some ip → p.vec_ip = [] ∨ FourFields ip

/-- The parameters of the event are read, and if none is missing there are labels. -/
def SafeEvent (p : Parser) (req : Text) : Prop :=
  let labels := value "&la=".toList (cstr req)
  Fits "&la=".toList 128 (cstr req) ∧
    match strstr "test2.php".toList (cstr req) with
    | some test2 => Readable p false test2 ∧ (Complete test2 → labels ≠ none)
    | none => ∃ test1 test2, breakAt "&&".toList req = some (test1, test2) ∧
        (∀ url, urlValue (cstr test1) = some url → url.length < 256) ∧
        Readable p true (cstr test2) ∧
        (Complete (cstr test2) → urlValue (cstr test1) ≠ none → labels ≠ none)

/-- There is a mailbox, as it is or nothing in base 64; an address, if one is known; and then it is
another one, or the event is read. -/
def SafeUrl (p : Parser) (req : Text) : Prop :=
  Fits "&e=".toList 128 (cstr req) ∧ Fits "&ip=".toList 128 (cstr req) ∧
    ∃ email, value "&e=".toList (cstr req) = some email ∧
      (email = "===".toList ∨ ('@' ∈ email ∧
        match p.known email with
        | none => SafeEvent p req
        | some known => ∃ ip, value "&ip=".toList (cstr req) = some ip ∧
            (cstr known = ip → SafeEvent p req)))

/-! ### One parameter -/

variable {p : Parser} {name s req email : Text} {room : Nat} {click : Bool}

/-- Behind a reader that succeeds under `P`, and with what. -/
theorem isSome_bind_of_iff {α β : Type*} {x : Option α} {f : α → Option β} {P : Prop} {a : α}
    (hx : ∀ v, x = some v ↔ P ∧ v = a) : (x.bind f).isSome ↔ P ∧ (f a).isSome := by
  constructor
  · intro h
    obtain ⟨b, hb⟩ := Option.isSome_iff_exists.mp h
    obtain ⟨v, hv, hf⟩ := Option.bind_eq_some_iff.mp hb
    obtain ⟨hP, rfl⟩ := (hx v).mp hv
    exact ⟨hP, Option.isSome_iff_exists.mpr ⟨b, hf⟩⟩
  · rintro ⟨hP, hf⟩
    rwa [(hx a).mpr ⟨hP, rfl⟩, Option.bind_some]

theorem snprintf_self {room n : Nat} {s : Text} (hlen : s.length < room) (hn : s.length < n) :
    snprintf room n s = some s := by
  rw [snprintf, if_neg (by omega), List.take_of_length_le (by omega)]

theorem param_eq_some_iff {v : Option Text} :
    param name room s = some v ↔ Fits name room s ∧ v = value name s := by
  rw [param, Fits, value]
  cases strstr name s with
  | none => simp [eq_comm]
  | some t =>
      obtain ⟨start, hstart⟩ : ∃ start, start = t.drop name.length := ⟨_, rfl⟩
      obtain ⟨w, hw⟩ : ∃ w, w = start.takeWhile (· != '&') := ⟨_, rfl⟩
      have hle : w.length ≤ start.length := hw ▸ (List.takeWhile_prefix _).length_le
      have htake : start.take w.length = w := by
        rw [hw]
        exact (List.prefix_iff_eq_take.mp (List.takeWhile_prefix _)).symm
      simp only [← hstart, ← hw, Option.map_some, Option.some.injEq, forall_eq']
      rw [snprintf, Nat.min_eq_left (by omega), Nat.add_sub_cancel, htake]
      split
      next h => exact iff_of_false (by simp) fun h' => by omega
      next h =>
        rw [Option.map_some, Option.some.injEq, eq_comm]
        exact (and_iff_right (by omega)).symm

theorem readUrl_eq_some_iff {url : Option Text} :
    readUrl s = some url
      ↔ (∀ v, urlValue s = some v → v.length < 256) ∧ url = urlValue s := by
  rw [readUrl, urlValue]
  cases strstr "url=".toList s with
  | none => simp [eq_comm]
  | some t =>
      simp only [Option.map_some, Option.some.injEq, forall_eq']
      rw [snprintf, Nat.min_self, Nat.add_sub_cancel, List.take_length]
      split
      next h => exact iff_of_false (by simp) fun h' => by omega
      next h =>
        rw [Option.map_some, Option.some.injEq, eq_comm]
        exact (and_iff_right (by omega)).symm

/-! ### The address -/

section Fields
variable {c : Char} {size n : Nat} {f s : Text}

theorem scanSets_last_eq (hc : c ∉ f) : scanSets c size (n + 1) f
    = if f = [] then some [] else if size ≤ f.length then none else some [f] := by
  simp [scanSets, takeWhile_ne hc, dropWhile_ne hc]

theorem scanSets_field_eq (hc : c ∉ f) : scanSets c size (n + 1) (f ++ c :: s)
    = if f = [] then some [] else if size ≤ f.length then none
      else (scanSets c size n s).map (f :: ·) := by
  simp [scanSets, takeWhile_ne_append hc, dropWhile_ne_append hc]

/-- `n` fields are stored. -/
theorem scanSets_full : ∀ {n : Nat}, (∃ fs, scanSets c size n s = some fs ∧ fs.length = n)
    ↔ n ≤ (s.splitOn c).length ∧ ∀ f ∈ (s.splitOn c).take n, f ≠ [] ∧ f.length < size := by
  induction s using split_induction c with
  | last f hf =>
      intro n
      cases n with
      | zero => simp [scanSets]
      | succ n =>
          rw [List.splitOn_eq_singleton hf, scanSets_last_eq hf]
          by_cases hnil : f = []
          · simp [hnil]
          · rw [if_neg hnil]
            by_cases hsize : size ≤ f.length
            · simp [hsize]
            · simp [hsize, hnil, eq_comm]
              omega
  | more f t hf ih =>
      intro n
      cases n with
      | zero => simp [scanSets]
      | succ n =>
          rw [splitOn_more hf, scanSets_field_eq hf, List.take_succ_cons, List.forall_mem_cons,
            List.length_cons, Nat.add_le_add_iff_right, and_left_comm, ← ih]
          by_cases hnil : f = []
          · simp [hnil]
          · rw [if_neg hnil]
            by_cases hsize : size ≤ f.length
            · rw [if_pos hsize]
              exact iff_of_false (by simp) fun h => by omega
            · have hlt : f.length < size := Nat.not_le.mp hsize
              simp [hsize, hnil, hlt]

theorem length_scanSets : ∀ {n : Nat} {s : Text} {fs : List Text},
    scanSets c size n s = some fs → fs.length ≤ n
  | 0, _, _, h => by simp_all [scanSets]
  | n + 1, s, fs, h => by
      rw [scanSets] at h
      split at h
      · cases h
        exact Nat.zero_le _
      · split at h
        · cases h
        · split at h
          · cases h
            exact Nat.succ_le_succ (Nat.zero_le n)
          · obtain ⟨fs, hfs, rfl⟩ := Option.map_eq_some_iff.mp h
            exact Nat.succ_le_succ (length_scanSets hfs)

end Fields

/-- The four variables of `find_ip` have values. -/
theorem isSome_node_iff (ip : Text) :
    ((scanInto '.' 8 unset ip).bind node).isSome ↔ FourFields ip := by
  rw [FourFields, ← scanSets_full, scanInto]
  cases hscan : scanSets '.' 8 4 ip with
  | none => simp
  | some fs =>
      have hlen := length_scanSets hscan
      rcases fs with _ | ⟨a, _ | ⟨b, _ | ⟨c, _ | ⟨d, _ | ⟨e, fs⟩⟩⟩⟩⟩
      case cons.cons.cons.cons.cons =>
        -- `scanSets` stops at the fourth field
        simp only [List.length_cons] at hlen
        omega
      all_goals simp [node, unset]

theorem isSome_findIp_iff (ipv : List Ipline) (ip : Text) :
    (findIp ipv ip).isSome ↔ ipv = [] ∨ FourFields ip := by
  rw [findIp]
  split
  next h => exact iff_of_true rfl (.inl h)
  next h => rw [Option.isSome_map, isSome_node_iff, or_iff_right h]

/-- A search finds what a probe found. -/
theorem exists_probe {α : Type*} {probe : Nat → Bisect.Probe α} {b e : Nat} {a : α}
    (h : Bisect.search probe b e = some a) : ∃ m, probe m = .found a := by
  fun_induction Bisect.search probe b e with
  | case1 b e hlt a' hfound =>
      cases h
      exact ⟨_, hfound⟩
  | case2 b e hlt hleft ih => exact ih h
  | case3 b e hlt hright ih => exact ih h
  | case4 => cases h

theorem length_findIp {area : Text} {ip : Text} (h : findIp p.vec_ip ip = some (some area)) :
    area.length ≤ 63 := by
  rw [findIp] at h
  split at h
  · cases h
  · obtain ⟨node, -, hsearch⟩ := Option.map_eq_some_iff.mp h
    obtain ⟨m, hm⟩ := exists_probe hsearch
    rw [probe] at hm
    split at hm
    next => cases hm
    next line hline =>
      split at hm
      · cases hm
      · split at hm
        · cases hm
        · cases hm
          exact p.areasFit line (List.mem_of_getElem? hline)

/-! ### The parameters of an event -/

theorem findArea_eq_some_iff {r_ip : Option Text} {area : Text} : findArea p r_ip = some area
    ↔ (∀ ip, r_ip = some ip → p.vec_ip = [] ∨ FourFields ip) ∧
      area = (findArea p r_ip).getD [] := by
  have hsome : (findArea p r_ip).isSome
      ↔ ∀ ip, r_ip = some ip → p.vec_ip = [] ∨ FourFields ip := by
    cases r_ip with
    | none => simp [findArea]
    | some ip => simp [findArea, isSome_findIp_iff]
  rw [← hsome]
  cases findArea p r_ip with
  | none => simp
  | some a => simp [eq_comm]

theorem length_findArea (r_ip : Option Text) : ((findArea p r_ip).getD []).length ≤ 63 := by
  cases r_ip with
  | none => exact Nat.zero_le _
  | some ip =>
      rw [findArea, Option.elim_some]
      cases hfound : findIp p.vec_ip ip with
      | none => exact Nat.zero_le _
      | some found =>
          cases found with
          | none => exact Nat.zero_le _
          | some area => exact length_findIp hfound

/-- The arrays behind the reading of the parameters. -/
def paramsOf (p : Parser) (click : Bool) (s : Text) : Params where
  email := value "&e=".toList s
  corpid := value "&c=".toList s
  templateid := value "&te=".toList s
  taskid := value "&ta=".toList s
  r_ip := value "&ip=".toList s
  area := (findArea p (value "&ip=".toList s)).getD []
  sbflag := if click then value "&f=".toList s else none
  osid := value "&oid=".toList s
  slangid := value "&lid=".toList s
  browserid := value "&bid=".toList s

theorem sbflag_eq_some_iff {v : Option Text} :
    (if click then param "&f=".toList 2 s else some none) = some v
      ↔ (click = true → Fits "&f=".toList 2 s) ∧
        v = if click then value "&f=".toList s else none := by
  cases click
  · simp [eq_comm]
  · simp [param_eq_some_iff]

theorem readParams_eq_some_iff {q : Params} :
    readParams p click s = some q ↔ Readable p click s ∧ q = paramsOf p click s := by
  simp only [readParams, Option.bind_eq_some_iff, Option.map_eq_some_iff, param_eq_some_iff,
    sbflag_eq_some_iff, findArea_eq_some_iff]
  constructor
  · rintro ⟨_, ⟨he, rfl⟩, _, ⟨hc, rfl⟩, _, ⟨hte, rfl⟩, _, ⟨hta, rfl⟩, _, ⟨hip, rfl⟩, _, ⟨hread, rfl⟩,
      _, ⟨hf, rfl⟩, _, ⟨hoid, rfl⟩, _, ⟨hlid, rfl⟩, _, ⟨hbid, rfl⟩, rfl⟩
    refine ⟨⟨?_, hf, hread⟩, rfl⟩
    simp only [fields, List.forall_mem_cons]
    exact ⟨he, hc, hte, hta, hip, hoid, hlid, hbid, fun _ h => absurd h List.not_mem_nil⟩
  · rintro ⟨⟨hfits, hf, hread⟩, rfl⟩
    simp only [fields, List.forall_mem_cons] at hfits
    obtain ⟨he, hc, hte, hta, hip, hoid, hlid, hbid, -⟩ := hfits
    exact ⟨_, ⟨he, rfl⟩, _, ⟨hc, rfl⟩, _, ⟨hte, rfl⟩, _, ⟨hta, rfl⟩, _, ⟨hip, rfl⟩, _, ⟨hread, rfl⟩,
      _, ⟨hf, rfl⟩, _, ⟨hoid, rfl⟩, _, ⟨hlid, rfl⟩, _, ⟨hbid, rfl⟩, rfl⟩

theorem complete_paramsOf (p : Parser) (click : Bool) (s : Text) :
    (paramsOf p click s).complete = true ↔ Complete s := by
  simp only [Complete, fields, List.forall_mem_cons, Params.complete, paramsOf,
    Bool.and_eq_true, Option.isSome_iff_ne_none]
  constructor
  · rintro ⟨⟨⟨⟨⟨⟨⟨hc, he⟩, hta⟩, hte⟩, hip⟩, hbid⟩, hlid⟩, hoid⟩
    exact ⟨he, hc, hte, hta, hip, hoid, hlid, hbid, fun _ h => absurd h List.not_mem_nil⟩
  · rintro ⟨he, hc, hte, hta, hip, hoid, hlid, hbid, -⟩
    exact ⟨⟨⟨⟨⟨⟨⟨hc, he⟩, hta⟩, hte⟩, hip⟩, hbid⟩, hlid⟩, hoid⟩

/-! ### The event -/

theorem exists_node {q : Params} {tag : Option Nat} {url : Option Text}
    (hmail : (q.email.getD []).length < 128) (harea : q.area.length ≤ 63)
    (hurl : ∀ u, url = some u → u.length < 256) : ∃ node, q.node tag url = some node := by
  rw [Params.node, snprintf_self hmail (by omega), Option.bind_some,
    snprintf_self (by omega) (by omega), Option.bind_some]
  cases url with
  | none => exact ⟨_, rfl⟩
  | some u =>
      have hlen := hurl u rfl
      rw [Option.elim_some, snprintf_self hlen (by omega)]
      exact ⟨_, rfl⟩

theorem exists_insertLabelInf {labels : Text} {action : Char} (hlabels : labels.length < 128)
    (hemail : email.length < 128) : ∃ sent, insertLabelInf labels email action = some sent := by
  refine ⟨_, if_neg ?_⟩
  have hget : "GET /insert?label=".toList.length = 18 := rfl
  have hmail : "&email=".toList.length = 7 := rfl
  have haction : "&action=".toList.length = 8 := rfl
  have hhttp : " HTTP/1.1\r\n\r\n".toList.length = 13 := rfl
  simp only [List.length_append, hget, hmail, haction, hhttp, List.length_singleton]
  omega

/-- The end of an event: with all parameters, the labels are used. -/
theorem isSome_end_iff {labels : Option Text} {node : Option Node} {action : Char} {complete : Bool}
    {done : Node → Text → Done} (hnode : ∃ n, node = some n)
    (hlabels : ∀ l, labels = some l → l.length < 128) (hemail : email.length < 128) :
    (if complete then
      node.bind fun node => labels.bind fun labels =>
        (insertLabelInf labels email action).map fun sent => done node sent
      else some .nothing).isSome ↔ (complete = true → labels ≠ none) := by
  obtain ⟨n, rfl⟩ := hnode
  cases complete with
  | false => simp
  | true =>
      cases labels with
      | none => simp
      | some l =>
          obtain ⟨sent, hsent⟩ : ∃ sent, insertLabelInf l email action = some sent :=
            exists_insertLabelInf (hlabels l rfl) hemail
          simp [hsent]

theorem length_email (h : Readable p click s) :
    ((paramsOf p click s).email.getD []).length < 128 := by
  have hfits := h.fits ("&e=".toList, 128) List.mem_cons_self
  change ((value "&e=".toList s).getD []).length < 128
  cases hv : value "&e=".toList s with
  | none => exact Nat.zero_lt_succ 127
  | some v => exact hfits v hv

variable {labels : Option Text}

theorem isSome_openMail_iff (hlabels : ∀ l, labels = some l → l.length < 128) :
    (openMail p labels s).isSome ↔ Readable p false s ∧ (Complete s → labels ≠ none) := by
  rw [openMail, isSome_bind_of_iff fun _ => readParams_eq_some_iff]
  refine and_congr_right fun hread => ?_
  have hmail := length_email hread
  rw [← complete_paramsOf p false s]
  exact isSome_end_iff (exists_node hmail (length_findArea _) (by simp)) hlabels hmail

theorem isSome_clickLink_iff (hlabels : ∀ l, labels = some l → l.length < 128) :
    (clickLink p labels req).isSome ↔
      ∃ test1 test2, breakAt "&&".toList req = some (test1, test2) ∧
        (∀ url, urlValue (cstr test1) = some url → url.length < 256) ∧
        Readable p true (cstr test2) ∧
        (Complete (cstr test2) → urlValue (cstr test1) ≠ none → labels ≠ none) := by
  rw [clickLink]
  cases breakAt "&&".toList req with
  | none =>
      rw [Option.bind_none]
      exact iff_of_false Bool.false_ne_true fun ⟨_, _, h, _⟩ => by cases h
  | some halves =>
      obtain ⟨test1, test2⟩ := halves
      rw [Option.bind_some, isSome_bind_of_iff fun _ => readUrl_eq_some_iff,
        isSome_bind_of_iff fun _ => readParams_eq_some_iff]
      refine Iff.trans (and_congr_right fun hurl => and_congr_right fun hread => ?_)
        ⟨fun h => ⟨test1, test2, rfl, h⟩, fun ⟨_, _, heq, h⟩ => by
          cases heq
          exact h⟩
      have hmail := length_email hread
      rw [isSome_end_iff (exists_node hmail (length_findArea _) hurl) hlabels hmail,
        Bool.and_eq_true, complete_paramsOf, Option.isSome_iff_ne_none]
      exact and_imp

/-- The event behind the checks. -/
theorem isSome_event_iff : ((param "&la=".toList 128 (cstr req)).bind fun labels =>
      (match strstr "test2.php".toList (cstr req) with
        | some test2 => openMail p labels test2
        | none => clickLink p labels req).map some).isSome ↔ SafeEvent p req := by
  rw [isSome_bind_of_iff fun _ => param_eq_some_iff, Option.isSome_map, SafeEvent]
  refine and_congr_right fun hla => ?_
  split
  · exact isSome_openMail_iff hla
  · exact isSome_clickLink_iff hla

/-! ### The mailbox -/

/-- What is behind the look at `m_map_ip`. -/
theorem isSome_track_iff {ip : Option Text} (hat : '@' ∈ email) :
    (track p req email ip).isSome ↔
      match p.known email with
      | none => SafeEvent p req
      | some known => ∃ v, ip = some v ∧ (cstr known = v → SafeEvent p req) := by
  rw [track, ipError]
  cases p.known email with
  | none =>
      rw [Option.elim_none, Option.bind_some, if_neg Bool.false_ne_true,
        if_neg (not_not_intro hat)]
      exact isSome_event_iff
  | some known =>
      cases ip with
      | none =>
          rw [Option.elim_some, Option.map_none, Option.bind_none]
          exact iff_of_false Bool.false_ne_true fun ⟨_, h, _⟩ => by cases h
      | some v =>
          rw [Option.elim_some, Option.map_some, Option.bind_some]
          by_cases hknown : cstr known = v
          · have hsame : ¬ (cstr known != v) = true := by
              rw [hknown, bne_self_eq_false]
              exact Bool.false_ne_true
            rw [if_neg hsame, if_neg (not_not_intro hat), isSome_event_iff]
            refine ⟨fun h => ⟨v, rfl, fun _ => h⟩, fun ⟨w, hw, h⟩ => h ?_⟩
            rw [hknown, Option.some.inj hw]
          · rw [if_pos (bne_iff_ne.mpr hknown)]
            refine iff_of_true rfl ⟨v, rfl, fun h => absurd h hknown⟩

theorem base64Decode_eq_some_iff {data r : Text} :
    base64Decode data = some r ↔ data = "===".toList ∧ r = [] := by
  simp [base64Decode, Deliver.Edcode.base64Decode_eq_some_iff]

/-- To replace by something shorter comes to an end. -/
theorem exists_replaceLoop {old new : Text} (hlt : new.length < old.length) : ∀ {fuel : Nat}
    {dest : Text}, dest.length < fuel →
    ∃ d, replaceLoop old new fuel dest = some d ∧ d.length ≤ dest.length
  | fuel + 1, dest, h => by
      rw [replaceLoop]
      cases hbreak : breakAt old dest with
      | none => exact ⟨dest, rfl, Nat.le_refl _⟩
      | some q =>
          have hdest := congrArg List.length (eq_of_breakAt hbreak)
          simp only [List.length_append] at hdest
          have hshort : (q.1 ++ (new ++ q.2)).length < dest.length := by
            simp only [List.length_append]
            omega
          have hfuel : (q.1 ++ (new ++ q.2)).length < fuel := by omega
          obtain ⟨d, hd, hle⟩ := exists_replaceLoop hlt hfuel
          exact ⟨d, hd, by omega⟩

theorem exists_decodeEmail (req : Text) : ∃ r, decodeEmail req "===".toList = some (r, []) := by
  have hshort : ([] : Text).length < "===".toList.length := by decide
  obtain ⟨d, hd, hle⟩ := exists_replaceLoop hshort (Nat.lt_succ_self (cstr req).length)
  have hreplace : strReplace (cstr req) "===".toList [] = some d := by
    rw [strReplace, if_neg (by decide)]
    exact hd
  rw [decodeEmail, base64Decode_eq_some_iff.mpr ⟨rfl, rfl⟩, Option.bind_some, hreplace,
    Option.bind_some, if_neg (Nat.not_lt.mpr hle)]
  exact ⟨_, rfl⟩

theorem track_nil (p : Parser) (req : Text) (ip : Option Text) :
    track p req [] ip = some none := rfl

theorem isSome_parseUrl_iff (p : Parser) (req : Text) :
    (parseUrl p req).isSome ↔ SafeUrl p req := by
  rw [parseUrl, isSome_bind_of_iff fun _ => param_eq_some_iff,
    isSome_bind_of_iff fun _ => param_eq_some_iff, SafeUrl]
  refine and_congr_right fun _ => and_congr_right fun _ => ?_
  cases value "&e=".toList (cstr req) with
  | none =>
      rw [Option.bind_none]
      exact iff_of_false Bool.false_ne_true fun ⟨_, h, _⟩ => by cases h
  | some email =>
      rw [Option.bind_some]
      by_cases hat : '@' ∈ email
      · rw [if_pos hat, isSome_track_iff hat]
        refine ⟨fun h => ⟨email, rfl, .inr ⟨hat, h⟩⟩, fun ⟨e, he, h⟩ => ?_⟩
        obtain rfl := Option.some.inj he
        rcases h with rfl | ⟨-, h⟩
        · exact absurd hat (by decide)
        · exact h
      · -- only `===` is decoded, and what comes of it is not looked up
        rw [if_neg hat]
        constructor
        · intro h
          obtain ⟨d, hd⟩ := Option.isSome_iff_exists.mp h
          obtain ⟨r, hr, -⟩ := Option.bind_eq_some_iff.mp hd
          obtain ⟨e, he, -⟩ := Option.bind_eq_some_iff.mp hr
          exact ⟨email, rfl, .inl (base64Decode_eq_some_iff.mp he).1⟩
        · rintro ⟨e, he, h⟩
          obtain rfl := Option.some.inj he
          rcases h with rfl | ⟨h, -⟩
          · obtain ⟨r, hr⟩ := exists_decodeEmail req
            rw [hr, Option.bind_some, track_nil]
            rfl
          · exact absurd h hat

example : parseUrl ⟨[], [], by simp⟩
    "GET /test2.php?&e=a@b.c&c=1&te=2&ta=3&ip=9&oid=4&lid=5&bid=6&la=x".toList
    = some (some
      { list_url := some ⟨"a@b.c".toList, [], none, 1, 2, 3, some 2, 4, 6, 5⟩
        opened := some ("a@b.c".toList, ['9'])
        sent := some "GET /insert?label=x&email=a@b.c&action=1 HTTP/1.1\r\n\r\n".toList }) := by
  decide +kernel

end Edm.Cachedb.ParseUrl

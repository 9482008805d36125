import Edm.Maillist.TaskFile
import Edm.Support.Run
import Mathlib.Logic.Function.Basic

/-!
# Maillist — Upload

Task files on their way into the queue.  An upload (`ReadTaskFromJava`) makes a marker
`<name>.tmp`, writes the task file, and removes the marker; then the task is loaded.  When the
daemon is started to recover, `RunRecover` loads every file it finds in the directory.

The marker keeps two uploads of one name apart, and a finished upload leaves none behind.  But
`RunRecover` does not look at the markers, and `fwrite` is not checked.  So a file with a part
missing may become a task when the daemon stops in the middle of an upload, or when a file cannot be
written.  `received_run` says that these are the only cases.
-/

namespace Edm.Maillist
open Support

/-! ### Files and uploads -/

/-- The directories of the configuration, and what the system makes of a path. -/
structure TaskDirs (κ : Type*) where
  sTaskFileDir : Text
  sTaskBakDir : Text
  resolve : Text → κ

namespace TaskDirs
variable {κ : Type*} (d : TaskDirs κ)

def sFileName (name : Text) : κ := d.resolve ((d.sTaskFileDir ++ '/' :: name).take 199)

def sFileNameTmp (name : Text) : κ :=
  d.resolve ((d.sTaskFileDir ++ '/' :: (name ++ ".tmp".toList)).take 199)

def sFileNameBak (name : Text) : κ := d.resolve ((d.sTaskBakDir ++ '/' :: name).take 199)

end TaskDirs

/-- What a file was made for. -/
inductive Owner where
  | unknown
  | marker (i : Nat)
  | task (i : Nat)
  deriving DecidableEq

/-- A file of the task directory.  `announced` and `owner` only remember: how long it is to be, and
the upload it belongs to. -/
structure File where
  content : Text
  announced : Nat
  owner : Owner

/-- Where an upload stands; `ended` says whether `ReadTaskFromJava` returned 0. -/
inductive UploadAt where
  | start
  | marked
  | writing (nFinish : Nat)
  | closed
  | failing (opened : Bool)
  | finished
  | ended (ok : Bool)
  deriving DecidableEq

structure Upload where
  name : Text
  nLeng : Int
  place : UploadAt

namespace UploadAt

/-- The marker is there. -/
def marking : UploadAt → Bool
  | marked | writing _ | closed | failing _ => true
  | start | finished | ended _ => false

/-- The task file is there. -/
def opened : UploadAt → Bool
  | writing _ | closed | failing true | finished => true
  | start | marked | failing false | ended _ => false

/-- The task file is there, and something may be missing. -/
def unsaved : UploadAt → Bool
  | writing _ | failing true => true
  | start | marked | closed | failing false | finished | ended _ => false

/-- `ReadTaskFromJava` has returned 0. -/
def done : UploadAt → Bool
  | finished => true
  | ended ok => ok
  | start | marked | writing _ | closed | failing _ => false

end UploadAt

/-- A task in the queue, as it was loaded. -/
structure Queued where
  content : Text
  announced : Nat

/-- The task directory, the names in the backup directory, the uploads and the queue. -/
structure Intake (κ : Type*) where
  files : κ → Option File
  bak : κ → Bool
  uploads : Nat → Option Upload
  queue : List Queued
  running : Bool

/-- What an upload does next; `opens` says whether `fopen` succeeds. -/
inductive Op where
  /-- The checks and the marker, under the lock. -/
  | mark (opens : Bool)
  /-- The task file is opened, under the lock. -/
  | openFile (opens : Bool)
  /-- `chunk` is read, and `fwrite` gets `kept` bytes of it into the file. -/
  | receive (chunk : Text) (kept : Nat)
  /-- Nothing more can be read. -/
  | hangUp
  | close
  /-- The marker is removed. -/
  | unmark
  /-- The files are removed after an error. -/
  | cleanUp
  /-- The session loads the file. -/
  | load
  deriving DecidableEq

inductive Act (κ : Type*) where
  /-- The name and the length of upload `i` are read. -/
  | begin (i : Nat) (name : Text) (nLeng : Int)
  | upload (i : Nat) (op : Op)
  /-- The file of a finished or stopped task is moved to the backup directory. -/
  | archive (p q : κ)
  /-- The process ends; what was not flushed is lost. -/
  | crash (kept : κ → Nat)
  /-- The daemon is started, and recovers the files of a directory when it was told to. -/
  | start (dir : Option (List κ))

/-- The text of a marker. -/
def markerText : Text := "do not delete this file.\n".toList

def marker (i : Nat) : File := ⟨markerText, markerText.length, .marker i⟩

namespace Intake
variable {κ : Type*} (d : TaskDirs κ) (loads : Text → Bool) (s : Intake κ)

/-- Upload `i` gets to `place`. -/
def goto (i : Nat) (u : Upload) (place : UploadAt) : Intake κ :=
  { s with uploads := Function.update s.uploads i (some { u with place := place }) }

/-- `AddTaskQueue`. -/
def addTask (f : File) : Intake κ := { s with queue := s.queue ++ [⟨f.content, f.announced⟩] }

/-- The upload that a file belongs to has ended. -/
def settled (f : File) : Bool :=
  match f.owner with
  | .unknown => true
  | .marker _ => false
  | .task i => (s.uploads i).any fun u => u.place == .ended true || u.place == .ended false

/-- A file that is open for writing. -/
def unflushed (f : File) : Bool :=
  match f.owner with
  | .unknown | .marker _ => false
  | .task i => (s.uploads i).any fun u => match u.place with | .writing _ => true | _ => false

/-- What is left of a file when the process ends. -/
def afterCrash (kept : κ → Nat) (p : κ) : Option File :=
  (s.files p).map fun f =>
    if s.unflushed f then { f with content := f.content.take (kept p) } else f

section
variable [DecidableEq κ]

def setFile (p : κ) (f : Option File) : Intake κ := { s with files := Function.update s.files p f }

/-- `ReadTaskFromJava`, one locked section, one read or one `fclose` at a time. -/
def uploadStep (i : Nat) (u : Upload) (op : Op) : Option (Intake κ) :=
  match u.place, op with
  | .start, .mark opens =>
      some (if (s.files (d.sFileNameTmp u.name)).isSome || (s.files (d.sFileName u.name)).isSome
          || s.bak (d.sFileNameBak u.name) || decide (u.nLeng ≤ 0) || !opens then
        s.goto i u (.ended false)
      else (s.setFile (d.sFileNameTmp u.name) (some (marker i))).goto i u .marked)
  | .marked, .openFile opens =>
      some (if (s.files (d.sFileName u.name)).isSome || !opens then s.goto i u (.failing false)
      else (s.setFile (d.sFileName u.name) (some ⟨[], u.nLeng.toNat, .task i⟩)).goto i u
        (.writing 0))
  | .writing nFinish, .receive chunk kept =>
      if 0 < chunk.length ∧ nFinish + chunk.length ≤ u.nLeng.toNat ∧ chunk.length ≤ 1024 then
        some ((s.setFile (d.sFileName u.name) ((s.files (d.sFileName u.name)).map fun f =>
          { f with content := f.content ++ chunk.take kept })).goto i u
            (.writing (nFinish + chunk.length)))
      else none
  | .writing nFinish, .hangUp =>
      if nFinish < u.nLeng.toNat then some (s.goto i u (.failing true)) else none
  | .writing nFinish, .close =>
      if u.nLeng.toNat ≤ nFinish then some (s.goto i u .closed) else none
  | .closed, .unmark => some ((s.setFile (d.sFileNameTmp u.name) none).goto i u .finished)
  | .failing opened, .cleanUp =>
      some (if opened then
        ((s.setFile (d.sFileNameTmp u.name) none).setFile (d.sFileName u.name) none).goto i u
          (.ended false)
      else (s.setFile (d.sFileNameTmp u.name) none).goto i u (.ended false))
  | .finished, .load =>
      match s.files (d.sFileName u.name) with
      | none => some (s.goto i u (.ended true))
      | some f =>
          some (if loads f.content then (s.addTask f).goto i u (.ended true)
          else (s.setFile (d.sFileName u.name) none).goto i u (.ended true))
  | _, _ => none

/-- `RunRecover` at a file. -/
def recoverFile (p : κ) : Intake κ :=
  match s.files p with
  | none => s
  | some f =>
      if loads f.content then s.addTask f else s.setFile p none

def step : Act κ → Option (Intake κ)
  | .begin i name nLeng =>
      if s.running && (s.uploads i).isNone then
        some { s with uploads := Function.update s.uploads i (some ⟨name, nLeng, .start⟩) }
      else none
  | .upload i op => (s.uploads i).bind fun u => s.uploadStep d loads i u op
  | .archive p q =>
      (s.files p).bind fun f =>
        if s.settled f then some { s.setFile p none with bak := Function.update s.bak q true }
        else none
  | .crash kept =>
      some { s with
        files := s.afterCrash kept
        uploads := fun i => (s.uploads i).map fun u => { u with place := .ended u.place.done }
        queue := []
        running := false }
  | .start dir =>
      if s.running then none
      else some { (dir.getD []).foldl (fun s p => s.recoverFile loads p) s with running := true }

end

/-- The daemon has not been started yet; whatever files there are, are whole. -/
structure Initial : Prop where
  files : ∀ p f, s.files p = some f → f.owner = .unknown ∧ f.content.length = f.announced
  uploads : ∀ i, s.uploads i = none
  queue : s.queue = []
  running : s.running = false

/-- Uploads end well. -/
structure Received : Prop where
  /-- Every task was loaded from a file with all its bytes. -/
  whole : ∀ t ∈ s.queue, t.content.length = t.announced
  /-- Two uploads do not write to one file. -/
  apart : ∀ i j u v n m, s.uploads i = some u → s.uploads j = some v → u.place = .writing n →
    v.place = .writing m → d.sFileName u.name = d.sFileName v.name → i = j
  /-- An upload that is over leaves no marker. -/
  clean : ∀ p f i u, s.files p = some f → f.owner = .marker i → s.uploads i = some u →
    u.place.done = false

/-- `fwrite` writes all, and the process does not end while a file with a part missing is there,
unless it has no template. -/
def Careful : Act κ → Prop
  | .upload _ (.receive chunk kept) => chunk.length ≤ kept
  | .crash kept => ∀ p f i u, s.files p = some f → f.owner = .task i → s.uploads i = some u →
      u.place.unsaved = true → ∀ f', s.afterCrash kept p = some f' →
      f'.content.length = f'.announced ∨ loads f'.content = false
  | _ => True

/-! ### The law -/

/-- What holds after careful steps. -/
structure Law (s : Intake κ) : Prop where
  markers : ∀ i u, s.uploads i = some u → u.place.marking = true →
    ∃ f, s.files (d.sFileNameTmp u.name) = some f ∧ f.owner = .marker i
  tasks : ∀ i u, s.uploads i = some u → u.place.opened = true →
    ∃ f, s.files (d.sFileName u.name) = some f ∧ f.owner = .task i ∧
      f.announced = u.nLeng.toNat ∧
        ∀ n, u.place = .writing n → f.content.length = n ∧ n ≤ f.announced
  clean : ∀ p f i, s.files p = some f → f.owner = .marker i → f.content.length = f.announced ∧
    ∃ u, s.uploads i = some u ∧ p = d.sFileNameTmp u.name ∧ u.place.done = false
  home : ∀ p f i, s.files p = some f → f.owner = .task i →
    ∃ u, s.uploads i = some u ∧ p = d.sFileName u.name
  whole : ∀ p f, s.files p = some f → f.content.length = f.announced ∨ loads f.content = false ∨
    ∃ i u, f.owner = .task i ∧ s.uploads i = some u ∧ u.place.unsaved = true
  queue : ∀ t ∈ s.queue, t.content.length = t.announced
  stopped : s.running = false → ∀ i u, s.uploads i = some u → ∃ ok, u.place = .ended ok

variable {d} {loads} {s}

theorem Law.received (h : s.Law d loads) : s.Received d where
  whole := h.queue
  apart i j u v n m hu hv hun hvm he := by
    obtain ⟨f, hf, hfi, -⟩ := h.tasks i u hu (by rw [hun]; rfl)
    obtain ⟨g, hg, hgj, -⟩ := h.tasks j v hv (by rw [hvm]; rfl)
    rw [he, hg] at hf
    obtain rfl := Option.some.inj hf
    rw [hgj] at hfi
    exact (Owner.task.inj hfi).symm
  clean p f i u hf ho hu := by
    obtain ⟨-, u', hu', -, hdone⟩ := h.clean p f i hf ho
    rw [hu] at hu'
    obtain rfl := Option.some.inj hu'
    exact hdone

theorem Initial.law (h : s.Initial) : s.Law d loads where
  markers i u hu := by
    rw [h.uploads i] at hu
    cases hu
  tasks i u hu := by
    rw [h.uploads i] at hu
    cases hu
  clean p f i hf ho := by
    rw [(h.files p f hf).1] at ho
    cases ho
  home p f i hf ho := by
    rw [(h.files p f hf).1] at ho
    cases ho
  whole p f hf := .inl (h.files p f hf).2
  queue t ht := by
    rw [h.queue] at ht
    cases ht
  stopped _ i u hu := by
    rw [h.uploads i] at hu
    cases hu

theorem Law.marker_file {i : Nat} {u : Upload} {p : κ} {f : File} (h : s.Law d loads)
    (hu : s.uploads i = some u) (hf : s.files p = some f) (ho : f.owner = .marker i) :
    f.content.length = f.announced ∧ p = d.sFileNameTmp u.name ∧ u.place.done = false := by
  obtain ⟨hlen, u', hu', hp, hdone⟩ := h.clean p f i hf ho
  rw [hu] at hu'
  obtain rfl := Option.some.inj hu'
  exact ⟨hlen, hp, hdone⟩

theorem Law.task_file {i : Nat} {u : Upload} {p : κ} {f : File} (h : s.Law d loads)
    (hu : s.uploads i = some u) (hf : s.files p = some f) (ho : f.owner = .task i) :
    p = d.sFileName u.name ∧
      (f.content.length = f.announced ∨ loads f.content = false ∨ u.place.unsaved = true) := by
  obtain ⟨u', hu', hp⟩ := h.home p f i hf ho
  rw [hu] at hu'
  obtain rfl := Option.some.inj hu'
  refine ⟨hp, (h.whole p f hf).imp_right (·.imp_right ?_)⟩
  rintro ⟨j, v, hfj, hv, hun⟩
  rw [ho] at hfj
  obtain rfl := Owner.task.inj hfj
  rw [hu] at hv
  obtain rfl := Option.some.inj hv
  exact hun

/-! ### The steps of an upload -/

/-- From one directory to the other only files of upload `i` change. -/
structure Own (i : Nat) (files files' : κ → Option File) : Prop where
  kept : ∀ p f, files p = some f → f.owner ≠ .marker i → f.owner ≠ .task i → files' p = some f
  new : ∀ p f, files' p = some f → files p = some f ∨ f.owner = .marker i ∨ f.owner = .task i

theorem Own.refl (i : Nat) (files : κ → Option File) : Own i files files :=
  ⟨fun _ _ hf _ _ => hf, fun _ _ hf => .inl hf⟩

theorem Own.trans {i : Nat} {files files₁ files' : κ → Option File} (h₁ : Own i files files₁)
    (h₂ : Own i files₁ files') : Own i files files' where
  kept p f hf hm ht := h₂.kept p f (h₁.kept p f hf hm ht) hm ht
  new p f hf := (h₂.new p f hf).elim (h₁.new p f) .inr

/-- What a step of upload `i` to `place` has to show. -/
structure Moves (d : TaskDirs κ) (loads : Text → Bool) (s : Intake κ) (i : Nat) (u : Upload)
    (place : UploadAt) (files' : κ → Option File) : Prop where
  at_ : s.uploads i = some u
  running : s.running = true
  own : Own i s.files files'
  marker : place.marking = true → ∃ f, files' (d.sFileNameTmp u.name) = some f ∧ f.owner = .marker i
  task : place.opened = true → ∃ f, files' (d.sFileName u.name) = some f ∧ f.owner = .task i ∧
    f.announced = u.nLeng.toNat ∧ ∀ n, place = .writing n → f.content.length = n ∧ n ≤ f.announced
  clean : ∀ p f, files' p = some f → f.owner = .marker i →
    f.content.length = f.announced ∧ p = d.sFileNameTmp u.name ∧ place.done = false
  home : ∀ p f, files' p = some f → f.owner = .task i → p = d.sFileName u.name ∧
    (f.content.length = f.announced ∨ loads f.content = false ∨ place.unsaved = true)

theorem Law.moves {s' : Intake κ} {i : Nat} {u : Upload} {place : UploadAt} (h : s.Law d loads)
    (hs : s' = { s with files := s'.files }) (hm : Moves d loads s i u place s'.files) :
    (s'.goto i u place).Law d loads := by
  obtain ⟨files', rfl⟩ : ∃ files', s' = { s with files := files' } := ⟨_, hs⟩
  have hself : ({ s with files := files' }.goto i u place).uploads i
      = some { u with place := place } := Function.update_self _ _ _
  have hother : ∀ j, j ≠ i → ({ s with files := files' }.goto i u place).uploads j = s.uploads j :=
    fun j hj => Function.update_of_ne hj _ _
  have hneMarker : ∀ j, j ≠ i → Owner.marker j ≠ .marker i :=
    fun j hj he => hj (Owner.marker.inj he)
  have hneTask : ∀ j, j ≠ i → Owner.task j ≠ .task i := fun j hj he => hj (Owner.task.inj he)
  constructor
  case markers =>
    intro j v hv hmark
    by_cases hj : j = i
    · subst hj
      obtain rfl := Option.some.inj (hself.symm.trans hv)
      exact hm.marker hmark
    · obtain ⟨f, hf, hfj⟩ := h.markers j v ((hother j hj).symm.trans hv) hmark
      refine ⟨f, hm.own.kept _ f hf ?_ ?_, hfj⟩
      · rw [hfj]
        exact hneMarker j hj
      · rw [hfj]
        simp
  case tasks =>
    intro j v hv hopen
    by_cases hj : j = i
    · subst hj
      obtain rfl := Option.some.inj (hself.symm.trans hv)
      exact hm.task hopen
    · obtain ⟨f, hf, hfj, hrest⟩ := h.tasks j v ((hother j hj).symm.trans hv) hopen
      refine ⟨f, hm.own.kept _ f hf ?_ ?_, hfj, hrest⟩
      · rw [hfj]
        simp
      · rw [hfj]
        exact hneTask j hj
  case clean =>
    intro p f j hf hfj
    by_cases hj : j = i
    · subst hj
      obtain ⟨hlen, hp, hdone⟩ := hm.clean p f hf hfj
      exact ⟨hlen, _, hself, hp, hdone⟩
    · rcases hm.own.new p f hf with hold | hown | hown
      · obtain ⟨hlen, v, hv, hrest⟩ := h.clean p f j hold hfj
        exact ⟨hlen, v, (hother j hj).trans hv, hrest⟩
      · exact absurd (hfj.symm.trans hown) (hneMarker j hj)
      · rw [hfj] at hown
        cases hown
  case home =>
    intro p f j hf hfj
    by_cases hj : j = i
    · subst hj
      exact ⟨_, hself, (hm.home p f hf hfj).1⟩
    · rcases hm.own.new p f hf with hold | hown | hown
      · obtain ⟨v, hv, hp⟩ := h.home p f j hold hfj
        exact ⟨v, (hother j hj).trans hv, hp⟩
      · rw [hfj] at hown
        cases hown
      · exact absurd (hfj.symm.trans hown) (hneTask j hj)
  case whole =>
    intro p f hf
    by_cases htask : f.owner = .task i
    · exact (hm.home p f hf htask).2.imp_right (·.imp_right fun hu => ⟨i, _, htask, hself, hu⟩)
    · by_cases hmark : f.owner = .marker i
      · exact .inl (hm.clean p f hf hmark).1
      · have hold := (hm.own.new p f hf).resolve_right (not_or.mpr ⟨hmark, htask⟩)
        refine (h.whole p f hold).imp_right (·.imp_right ?_)
        rintro ⟨j, v, hfj, hv, hun⟩
        have hj : j ≠ i := fun he => htask (he ▸ hfj)
        exact ⟨j, v, hfj, (hother j hj).trans hv, hun⟩
  case queue => exact h.queue
  case stopped =>
    intro hr
    have hr' : s.running = false := hr
    rw [hm.running] at hr'
    cases hr'

theorem Law.running {i : Nat} {u : Upload} (h : s.Law d loads) (hu : s.uploads i = some u)
    (hne : ∀ ok, u.place ≠ .ended ok) : s.running = true := by
  by_contra hr
  obtain ⟨ok, hok⟩ := h.stopped (Bool.eq_false_iff.mpr hr) i u hu
  exact hne ok hok

/-- A step that leaves the files. -/
theorem Law.goto {i : Nat} {u : Upload} {place : UploadAt} (h : s.Law d loads)
    (hu : s.uploads i = some u) (hne : ∀ ok, u.place ≠ .ended ok)
    (hmark : place.marking = true → u.place.marking = true)
    (hopen : place.opened = true → u.place.opened = true) (hwrite : ∀ n, place ≠ .writing n)
    (hdone : u.place.done = false → place.done = false)
    (hsave : ∀ f, s.files (d.sFileName u.name) = some f → f.owner = .task i →
      u.place.unsaved = true → f.content.length = f.announced ∨ place.unsaved = true) :
    (s.goto i u place).Law d loads := by
  refine h.moves rfl ⟨hu, h.running hu hne, .refl i s.files, fun hm => h.markers i u hu (hmark hm),
    fun ho => ?_, fun p f hf ho => ?_, fun p f hf ho => ?_⟩
  · obtain ⟨f, hf, hfi, hann, -⟩ := h.tasks i u hu (hopen ho)
    exact ⟨f, hf, hfi, hann, fun n hn => absurd hn (hwrite n)⟩
  · obtain ⟨hlen, hp, hd⟩ := h.marker_file hu hf ho
    exact ⟨hlen, hp, hdone hd⟩
  · obtain ⟨rfl, hw | hw | hw⟩ := h.task_file hu hf ho
    · exact ⟨rfl, .inl hw⟩
    · exact ⟨rfl, .inr (.inl hw)⟩
    · exact ⟨rfl, (hsave f hf ho hw).imp_right .inr⟩

/-- The last byte has been read. -/
theorem Law.close {i : Nat} {u : Upload} {n : Nat} (h : s.Law d loads) (hu : s.uploads i = some u)
    (hp : u.place = .writing n) (hend : u.nLeng.toNat ≤ n) : (s.goto i u .closed).Law d loads := by
  obtain ⟨f₀, hf₀, -, hann, hlen⟩ := h.tasks i u hu (by rw [hp]; rfl)
  obtain ⟨hn, hle⟩ := hlen n hp
  refine h.goto hu (fun ok he => ?_) (fun _ => by rw [hp]; rfl) (fun _ => by rw [hp]; rfl)
    (fun m hm => by cases hm) (fun _ => rfl) fun f hf _ _ => .inl ?_
  · rw [hp] at he
    cases he
  · rw [hf₀] at hf
    obtain rfl := Option.some.inj hf
    rw [hn]
    exact Nat.le_antisymm hle (hann ▸ hend)

open UploadAt in
/-- A step of an upload that only fails. -/
theorem Law.giveUp {i : Nat} {u : Upload} {place : UploadAt} (h : s.Law d loads)
    (hu : s.uploads i = some u) (hp : u.place = .start ∧ place = .ended false ∨
      u.place = .marked ∧ place = .failing false ∨
        ∃ n, u.place = .writing n ∧ place = .failing true) :
    (s.goto i u place).Law d loads := by
  rcases hp with ⟨hp, rfl⟩ | ⟨hp, rfl⟩ | ⟨n, hp, rfl⟩
  · exact h.goto hu (by simp [hp]) (fun hm => by cases hm) (fun ho => by cases ho)
      (fun n hn => by cases hn) (fun _ => rfl) fun f _ _ hun => by simp [hp, unsaved] at hun
  · exact h.goto hu (by simp [hp]) (by simp [hp, marking]) (fun ho => by cases ho)
      (fun n hn => by cases hn) (fun _ => rfl) fun f _ _ hun => by simp [hp, unsaved] at hun
  · exact h.goto hu (by simp [hp]) (by simp [hp, marking]) (by simp [hp, opened])
      (fun n hn => by cases hn) (fun _ => rfl) fun _ _ _ _ => .inr rfl

/-- A whole file becomes a task. -/
theorem Law.addTask {f : File} (h : s.Law d loads) (hf : f.content.length = f.announced) :
    (s.addTask f).Law d loads where
  markers := h.markers
  tasks := h.tasks
  clean := h.clean
  home := h.home
  whole := h.whole
  queue t ht := by
    rcases List.mem_append.mp ht with ht | ht
    · exact h.queue t ht
    · rw [List.mem_singleton] at ht
      rw [ht]
      exact hf
  stopped := h.stopped

/-- A new upload. -/
theorem Law.begin {i : Nat} {name : Text} {nLeng : Int} (h : s.Law d loads)
    (hr : s.running = true) (hi : s.uploads i = none) :
    Law d loads { s with
      uploads := Function.update s.uploads i (some ⟨name, nLeng, .start⟩) } := by
  have hkeep : ∀ j u, s.uploads j = some u →
      Function.update s.uploads i (some ⟨name, nLeng, .start⟩) j = some u := by
    intro j u hu
    have hj : j ≠ i := by
      rintro rfl
      rw [hi] at hu
      cases hu
    rw [Function.update_of_ne hj, hu]
  have hnew : ∀ j u, Function.update s.uploads i (some ⟨name, nLeng, .start⟩) j = some u →
      s.uploads j = some u ∨ u.place = .start := by
    intro j u hu
    by_cases hj : j = i
    · subst hj
      rw [Function.update_self] at hu
      exact .inr (Option.some.inj hu ▸ rfl)
    · rw [Function.update_of_ne hj] at hu
      exact .inl hu
  constructor
  case markers =>
    intro j u hu hm
    rcases hnew j u hu with hu | hp
    · exact h.markers j u hu hm
    · rw [hp] at hm
      cases hm
  case tasks =>
    intro j u hu ho
    rcases hnew j u hu with hu | hp
    · exact h.tasks j u hu ho
    · rw [hp] at ho
      cases ho
  case clean =>
    intro p f j hf ho
    obtain ⟨hlen, u, hu, hrest⟩ := h.clean p f j hf ho
    exact ⟨hlen, u, hkeep j u hu, hrest⟩
  case home =>
    intro p f j hf ho
    obtain ⟨u, hu, hp⟩ := h.home p f j hf ho
    exact ⟨u, hkeep j u hu, hp⟩
  case whole =>
    intro p f hf
    refine (h.whole p f hf).imp_right (·.imp_right ?_)
    rintro ⟨j, u, hj, hu, hun⟩
    exact ⟨j, u, hj, hkeep j u hu, hun⟩
  case queue => exact h.queue
  case stopped =>
    intro hr'
    have hr'' : s.running = false := hr'
    rw [hr] at hr''
    cases hr''

section
variable [DecidableEq κ]

@[simp] theorem setFile_files_self (p : κ) (f : Option File) : (s.setFile p f).files p = f :=
  Function.update_self _ _ _

theorem setFile_files_of_ne {p q : κ} (f : Option File) (h : p ≠ q) :
    (s.setFile q f).files p = s.files p :=
  Function.update_of_ne h _ _

theorem eq_or_of_setFile {p q : κ} {f : File} {f' : Option File}
    (hf : (s.setFile q f').files p = some f) :
    (p = q ∧ f' = some f) ∨ (p ≠ q ∧ s.files p = some f) := by
  by_cases hp : p = q
  · subst hp
    exact .inl ⟨rfl, by rwa [setFile_files_self] at hf⟩
  · exact .inr ⟨hp, by rwa [setFile_files_of_ne _ hp] at hf⟩

/-- A file of the upload is replaced, or a new one made. -/
theorem Own.set {i : Nat} {p : κ} {f' : Option File}
    (hold : ∀ f, s.files p = some f → f.owner = .marker i ∨ f.owner = .task i)
    (hnew : ∀ f, f' = some f → f.owner = .marker i ∨ f.owner = .task i) :
    Own i s.files (s.setFile p f').files where
  kept q f hf h₁ h₂ := by
    have hq : q ≠ p := by
      rintro rfl
      exact (hold f hf).elim h₁ h₂
    rw [setFile_files_of_ne _ hq, hf]
  new q f hf := by
    rcases eq_or_of_setFile hf with ⟨-, hf⟩ | ⟨-, hf⟩
    · exact .inr (hnew f hf)
    · exact .inl hf

theorem Law.mark {i : Nat} {u : Upload} (h : s.Law d loads) (hu : s.uploads i = some u)
    (hp : u.place = .start) (hfree : s.files (d.sFileNameTmp u.name) = none) :
    ((s.setFile (d.sFileNameTmp u.name) (some (marker i))).goto i u .marked).Law d loads := by
  refine h.moves rfl ⟨hu, h.running hu fun ok he => ?_, .set (fun f hf => ?_) fun f hf => ?_,
    fun _ => ⟨marker i, setFile_files_self _ _, rfl⟩, fun ho => ?_, fun p f hf ho => ?_,
    fun p f hf ho => ?_⟩
  · rw [hp] at he
    cases he
  · rw [hfree] at hf
    cases hf
  · cases hf
    exact .inl rfl
  · cases ho
  · rcases eq_or_of_setFile hf with ⟨rfl, hnew⟩ | ⟨-, hf⟩
    · cases hnew
      exact ⟨rfl, rfl, rfl⟩
    · obtain ⟨hlen, hpath, -⟩ := h.marker_file hu hf ho
      exact ⟨hlen, hpath, rfl⟩
  · rcases eq_or_of_setFile hf with ⟨rfl, hnew⟩ | ⟨-, hf⟩
    · cases hnew
      cases ho
    · obtain ⟨hpath, hw⟩ := h.task_file hu hf ho
      rw [hp] at hw
      exact ⟨hpath, hw.imp_right (·.imp_right fun hun => absurd hun (by decide))⟩

theorem Law.openFile {i : Nat} {u : Upload} (h : s.Law d loads) (hu : s.uploads i = some u)
    (hp : u.place = .marked) (hfree : s.files (d.sFileName u.name) = none) :
    ((s.setFile (d.sFileName u.name) (some ⟨[], u.nLeng.toNat, .task i⟩)).goto i u
      (.writing 0)).Law d loads := by
  obtain ⟨m, hm, hmi⟩ := h.markers i u hu (by rw [hp]; rfl)
  have hne : d.sFileNameTmp u.name ≠ d.sFileName u.name := by
    intro he
    rw [he, hfree] at hm
    cases hm
  refine h.moves rfl ⟨hu, h.running hu fun ok he => ?_, .set (fun f hf => ?_) fun f hf => ?_,
    fun _ => ⟨m, (setFile_files_of_ne _ hne).trans hm, hmi⟩,
    fun _ => ⟨_, setFile_files_self _ _, rfl, rfl, fun n hn => ?_⟩, fun p f hf ho => ?_,
    fun p f hf ho => ?_⟩
  · rw [hp] at he
    cases he
  · rw [hfree] at hf
    cases hf
  · cases hf
    exact .inr rfl
  · cases hn
    exact ⟨rfl, Nat.zero_le _⟩
  · rcases eq_or_of_setFile hf with ⟨rfl, hnew⟩ | ⟨-, hf⟩
    · cases hnew
      cases ho
    · obtain ⟨hlen, hpath, -⟩ := h.marker_file hu hf ho
      exact ⟨hlen, hpath, rfl⟩
  · rcases eq_or_of_setFile hf with ⟨rfl, -⟩ | ⟨hq, hf⟩
    · exact ⟨rfl, .inr (.inr rfl)⟩
    · exact absurd (h.task_file hu hf ho).1 hq

theorem Law.receive {i : Nat} {u : Upload} {n kept : Nat} {chunk : Text} (h : s.Law d loads)
    (hu : s.uploads i = some u) (hp : u.place = .writing n)
    (hroom : n + chunk.length ≤ u.nLeng.toNat) (hkept : chunk.length ≤ kept) :
    ((s.setFile (d.sFileName u.name) ((s.files (d.sFileName u.name)).map fun f =>
      { f with content := f.content ++ chunk.take kept })).goto i u
        (.writing (n + chunk.length))).Law d loads := by
  obtain ⟨m, hm, hmi⟩ := h.markers i u hu (by rw [hp]; rfl)
  obtain ⟨f₀, hf₀, hi, hann, hlen⟩ := h.tasks i u hu (by rw [hp]; rfl)
  have hne : d.sFileNameTmp u.name ≠ d.sFileName u.name := by
    intro he
    rw [he, hf₀] at hm
    obtain rfl := Option.some.inj hm
    rw [hi] at hmi
    cases hmi
  rw [hf₀, Option.map_some, List.take_of_length_le hkept]
  refine h.moves rfl ⟨hu, h.running hu fun ok he => ?_, .set (fun f hf => ?_) fun f hf => ?_,
    fun _ => ⟨m, (setFile_files_of_ne _ hne).trans hm, hmi⟩,
    fun _ => ⟨_, setFile_files_self _ _, hi, hann, fun k hk => ?_⟩, fun p f hf ho => ?_,
    fun p f hf ho => ?_⟩
  · rw [hp] at he
    cases he
  · rw [hf₀] at hf
    obtain rfl := Option.some.inj hf
    exact .inr hi
  · cases hf
    exact .inr hi
  · cases hk
    rw [List.length_append, (hlen n hp).1]
    exact ⟨rfl, hann ▸ hroom⟩
  · rcases eq_or_of_setFile hf with ⟨rfl, hnew⟩ | ⟨-, hf⟩
    · cases hnew
      rw [hi] at ho
      cases ho
    · obtain ⟨hl, hpath, -⟩ := h.marker_file hu hf ho
      exact ⟨hl, hpath, rfl⟩
  · rcases eq_or_of_setFile hf with ⟨rfl, -⟩ | ⟨hq, hf⟩
    · exact ⟨rfl, .inr (.inr rfl)⟩
    · exact absurd (h.task_file hu hf ho).1 hq

/-- What is left when a file is removed. -/
theorem of_setFile_none {p q : κ} {f : File} (h : (s.setFile p none).files q = some f) :
    q ≠ p ∧ s.files q = some f := by
  rcases eq_or_of_setFile h with ⟨-, h⟩ | h
  · cases h
  · exact h

/-- An upload removes its marker. -/
theorem Law.unmarked {i : Nat} {u : Upload} (h : s.Law d loads) (hu : s.uploads i = some u)
    (hp : u.place.marking = true) :
    Own i s.files (s.setFile (d.sFileNameTmp u.name) none).files ∧
      ∀ p f, (s.setFile (d.sFileNameTmp u.name) none).files p = some f → f.owner ≠ .marker i := by
  obtain ⟨m, hm, hmi⟩ := h.markers i u hu hp
  refine ⟨.set (fun f hf => .inl ?_) (fun f hf => by cases hf), fun p f hf ho => ?_⟩
  · rw [hm] at hf
    exact Option.some.inj hf ▸ hmi
  · obtain ⟨hq, hf⟩ := of_setFile_none hf
    exact hq (h.marker_file hu hf ho).2.1

/-- The marker goes when the task file is closed; from there on the file is whole. -/
theorem Law.unmark {i : Nat} {u : Upload} (h : s.Law d loads) (hu : s.uploads i = some u)
    (hp : u.place = .closed) :
    ((s.setFile (d.sFileNameTmp u.name) none).goto i u .finished).Law d loads := by
  obtain ⟨hown, hgone⟩ := h.unmarked hu (by rw [hp]; rfl)
  obtain ⟨m, hm, hmi⟩ := h.markers i u hu (by rw [hp]; rfl)
  obtain ⟨f₀, hf₀, hi, hann, -⟩ := h.tasks i u hu (by rw [hp]; rfl)
  have hne : d.sFileName u.name ≠ d.sFileNameTmp u.name := by
    intro he
    rw [he, hm] at hf₀
    obtain rfl := Option.some.inj hf₀
    rw [hi] at hmi
    cases hmi
  refine h.moves rfl ⟨hu, h.running hu fun ok he => ?_, hown, fun hmark => ?_,
    fun _ => ⟨f₀, (setFile_files_of_ne _ hne).trans hf₀, hi, hann, fun n hn => ?_⟩,
    fun p f hf ho => absurd ho (hgone p f hf), fun p f hf ho => ?_⟩
  · rw [hp] at he
    cases he
  · cases hmark
  · cases hn
  · obtain ⟨hpath, hw⟩ := h.task_file hu (of_setFile_none hf).2 ho
    rw [hp] at hw
    exact ⟨hpath, hw.imp_right (·.imp_right fun hun => absurd hun (by decide))⟩

/-- After an error before the task file was opened, only the marker is removed. -/
theorem Law.cleanUpMarker {i : Nat} {u : Upload} (h : s.Law d loads) (hu : s.uploads i = some u)
    (hp : u.place = .failing false) :
    ((s.setFile (d.sFileNameTmp u.name) none).goto i u (.ended false)).Law d loads := by
  obtain ⟨hown, hgone⟩ := h.unmarked hu (by rw [hp]; rfl)
  refine h.moves rfl ⟨hu, h.running hu fun ok he => ?_, hown, fun hmark => ?_, fun ho => ?_,
    fun p f hf ho => absurd ho (hgone p f hf), fun p f hf ho => ?_⟩
  · rw [hp] at he
    cases he
  · cases hmark
  · cases ho
  · obtain ⟨hpath, hw⟩ := h.task_file hu (of_setFile_none hf).2 ho
    rw [hp] at hw
    exact ⟨hpath, hw.imp_right (·.imp_right fun hun => absurd hun (by decide))⟩

/-- After an error behind that, the task file is removed too. -/
theorem Law.cleanUpTask {i : Nat} {u : Upload} (h : s.Law d loads) (hu : s.uploads i = some u)
    (hp : u.place = .failing true) :
    (((s.setFile (d.sFileNameTmp u.name) none).setFile (d.sFileName u.name) none).goto i u
      (.ended false)).Law d loads := by
  obtain ⟨hmarker, hgone⟩ := h.unmarked hu (by rw [hp]; rfl)
  obtain ⟨f₀, hf₀, hi, -⟩ := h.tasks i u hu (by rw [hp]; rfl)
  have htask : Own i (s.setFile (d.sFileNameTmp u.name) none).files
      ((s.setFile (d.sFileNameTmp u.name) none).setFile (d.sFileName u.name) none).files := by
    refine .set (fun f hf => .inr ?_) fun f hf => by cases hf
    rw [hf₀.symm.trans (of_setFile_none hf).2 |> Option.some.inj] at hi
    exact hi
  refine h.moves rfl ⟨hu, h.running hu fun ok he => ?_, hmarker.trans htask, fun hmark => ?_,
    fun ho => ?_, fun p f hf ho => absurd ho (hgone p f (of_setFile_none hf).2),
    fun p f hf ho => ?_⟩
  · rw [hp] at he
    cases he
  · cases hmark
  · cases ho
  · obtain ⟨hq, hf⟩ := of_setFile_none hf
    exact absurd (h.task_file hu (of_setFile_none hf).2 ho).1 hq

/-- A file that no upload needs is removed. -/
theorem Law.remove {p : κ} (h : s.Law d loads)
    (hmark : ∀ i u, s.uploads i = some u → u.place.marking = true → d.sFileNameTmp u.name ≠ p)
    (hopen : ∀ i u, s.uploads i = some u → u.place.opened = true → d.sFileName u.name ≠ p) :
    (s.setFile p none).Law d loads := by
  have hold : ∀ q f, (s.setFile p none).files q = some f → s.files q = some f :=
    fun q f hf => (of_setFile_none hf).2
  constructor
  case markers =>
    intro i u hu hm
    obtain ⟨f, hf, hi⟩ := h.markers i u hu hm
    exact ⟨f, (setFile_files_of_ne _ (hmark i u hu hm)).trans hf, hi⟩
  case tasks =>
    intro i u hu ho
    obtain ⟨f, hf, hrest⟩ := h.tasks i u hu ho
    exact ⟨f, (setFile_files_of_ne _ (hopen i u hu ho)).trans hf, hrest⟩
  case clean => exact fun q f i hf => h.clean q f i (hold q f hf)
  case home => exact fun q f i hf => h.home q f i (hold q f hf)
  case whole => exact fun q f hf => h.whole q f (hold q f hf)
  case queue => exact h.queue
  case stopped => exact h.stopped

/-- The session loads the file it has received. -/
theorem Law.load {i : Nat} {u : Upload} {f : File} (h : s.Law d loads) (hu : s.uploads i = some u)
    (hp : u.place = .finished) (hf : s.files (d.sFileName u.name) = some f) :
    (if loads f.content then (s.addTask f).goto i u (.ended true)
      else (s.setFile (d.sFileName u.name) none).goto i u (.ended true)).Law d loads := by
  obtain ⟨f₀, hf₀, hi, -⟩ := h.tasks i u hu (by rw [hp]; rfl)
  rw [hf] at hf₀
  obtain rfl := Option.some.inj hf₀
  have hne : ∀ ok, u.place ≠ .ended ok := by
    rw [hp]
    exact fun ok he => by cases he
  split
  next hl =>
    have hwhole : f.content.length = f.announced := by
      obtain ⟨-, hw | hw | hw⟩ := h.task_file hu hf hi
      · exact hw
      · rw [hl] at hw
        cases hw
      · rw [hp] at hw
        cases hw
    refine (h.addTask hwhole).goto hu hne (fun hm => by cases hm) (fun ho => by cases ho)
      (fun n hn => by cases hn) (fun hd => ?_) fun g _ _ hun => ?_
    · rw [hp] at hd
      cases hd
    · rw [hp] at hun
      cases hun
  next =>
    refine h.moves rfl ⟨hu, h.running hu hne, .set (fun g hg => ?_) fun g hg => ?_,
      fun hm => ?_, fun ho => ?_, fun p g hg ho => ?_, fun p g hg ho => ?_⟩
    · rw [hf] at hg
      exact .inr (Option.some.inj hg ▸ hi)
    · cases hg
    · cases hm
    · cases ho
    · rcases eq_or_of_setFile hg with ⟨-, hnew⟩ | ⟨-, hg⟩
      · cases hnew
      · obtain ⟨-, -, hd⟩ := h.marker_file hu hg ho
        rw [hp] at hd
        cases hd
    · rcases eq_or_of_setFile hg with ⟨-, hnew⟩ | ⟨hq, hg⟩
      · cases hnew
      · exact absurd (h.task_file hu hg ho).1 hq

theorem Law.uploadStep {s' : Intake κ} {i : Nat} {u : Upload} {op : Op} (h : s.Law d loads)
    (hu : s.uploads i = some u) (hc : s.Careful loads (.upload i op))
    (hs : s.uploadStep d loads i u op = some s') : s'.Law d loads := by
  unfold Intake.uploadStep at hs
  split at hs
  next opens hp =>
    cases hs
    split
    · exact h.giveUp hu (.inl ⟨hp, rfl⟩)
    · rename_i hfree
      simp only [Bool.or_eq_true, not_or, Bool.not_eq_true, Option.isSome_eq_false_iff,
        Option.isNone_iff_eq_none] at hfree
      exact h.mark hu hp hfree.1.1.1.1
  next opens hp =>
    cases hs
    split
    · exact h.giveUp hu (.inr (.inl ⟨hp, rfl⟩))
    · rename_i hfree
      simp only [Bool.or_eq_true, not_or, Bool.not_eq_true, Option.isSome_eq_false_iff,
        Option.isNone_iff_eq_none] at hfree
      exact h.openFile hu hp hfree.1
  next n chunk kept hp =>
    split at hs
    · rename_i hroom
      cases hs
      exact h.receive hu hp hroom.2.1 hc
    · cases hs
  next n hp =>
    split at hs
    · cases hs
      exact h.giveUp hu (.inr (.inr ⟨n, hp, rfl⟩))
    · cases hs
  next n hp =>
    split at hs
    · rename_i hend
      cases hs
      exact h.close hu hp hend
    · cases hs
  next hp =>
    cases hs
    exact h.unmark hu hp
  next opened hp =>
    cases hs
    cases opened with
    | true => exact h.cleanUpTask hu hp
    | false => exact h.cleanUpMarker hu hp
  next hp =>
    split at hs
    next hf =>
      obtain ⟨f, hf', -⟩ := h.tasks i u hu (by rw [hp]; rfl)
      rw [hf] at hf'
      cases hf'
    next f hf =>
      cases hs
      exact h.load hu hp hf
  next => cases hs

/-! ### The other steps -/

/-- The file of an upload that has ended goes to the backup directory. -/
theorem Law.archive {p : κ} {f : File} {bak : κ → Bool} (h : s.Law d loads)
    (hf : s.files p = some f) (hs : s.settled f = true) :
    Law d loads { s.setFile p none with bak := bak } := by
  have hremove : (s.setFile p none).Law d loads := by
    refine h.remove (fun i u hu hm he => ?_) fun i u hu ho he => ?_
    · obtain ⟨g, hg, hgi⟩ := h.markers i u hu hm
      rw [he, hf] at hg
      obtain rfl := Option.some.inj hg
      rw [settled, hgi] at hs
      cases hs
    · obtain ⟨g, hg, hgi, -⟩ := h.tasks i u hu ho
      rw [he, hf] at hg
      obtain rfl := Option.some.inj hg
      rw [settled, hgi] at hs
      simp only [hu, Option.any_some, Bool.or_eq_true, beq_iff_eq] at hs
      rcases hs with hp | hp
      · rw [hp] at ho
        cases ho
      · rw [hp] at ho
        cases ho
  exact ⟨hremove.markers, hremove.tasks, hremove.clean, hremove.home, hremove.whole,
    hremove.queue, hremove.stopped⟩

/-- A file of the directory is loaded, or removed. -/
theorem Law.recoverFile {p : κ} (h : s.Law d loads) (hr : s.running = false) :
    (s.recoverFile loads p).Law d loads ∧ (s.recoverFile loads p).running = false := by
  unfold Intake.recoverFile
  split
  next => exact ⟨h, hr⟩
  next f hf =>
    split
    · rename_i hl
      refine ⟨h.addTask ?_, hr⟩
      rcases h.whole p f hf with hw | hw | ⟨i, u, -, hu, hun⟩
      · exact hw
      · rw [hl] at hw
        cases hw
      · obtain ⟨ok, hok⟩ := h.stopped hr i u hu
        rw [hok] at hun
        cases hun
    · refine ⟨h.remove (fun i u hu hm => ?_) fun i u hu ho => ?_, hr⟩
      · obtain ⟨ok, hok⟩ := h.stopped hr i u hu
        rw [hok] at hm
        cases hm
      · obtain ⟨ok, hok⟩ := h.stopped hr i u hu
        rw [hok] at ho
        cases ho

theorem Law.recoverFiles (ps : List κ) {s : Intake κ} (h : s.Law d loads)
    (hr : s.running = false) : (ps.foldl (fun s p => s.recoverFile loads p) s).Law d loads := by
  induction ps generalizing s with
  | nil => exact h
  | cons p ps ih => exact ih (h.recoverFile hr).1 (h.recoverFile hr).2

/-- The process ends, with no file in it that is not whole and can be loaded. -/
theorem Law.crash {s' : Intake κ} {kept : κ → Nat} (h : s.Law d loads)
    (hc : s.Careful loads (.crash kept)) (hs : s.step d loads (.crash kept) = some s') :
    s'.Law d loads := by
  cases hs
  have hold : ∀ p f', s.afterCrash kept p = some f' → ∃ f, s.files p = some f ∧
      f'.owner = f.owner ∧ f'.announced = f.announced ∧ (s.unflushed f = false → f' = f) := by
    intro p f' hf'
    obtain ⟨f, hf, rfl⟩ := Option.map_eq_some_iff.mp hf'
    refine ⟨f, hf, ?_⟩
    split
    · rename_i hun
      exact ⟨rfl, rfl, fun hun' => by rw [hun] at hun'; cases hun'⟩
    · exact ⟨rfl, rfl, fun _ => rfl⟩
  have hended : ∀ i u',
      (s.uploads i).map (fun u => { u with place := .ended u.place.done }) = some u' →
        ∃ u, s.uploads i = some u ∧ u' = { u with place := .ended u.place.done } := by
    intro i u' hu'
    obtain ⟨u, hu, rfl⟩ := Option.map_eq_some_iff.mp hu'
    exact ⟨u, hu, rfl⟩
  constructor
  case markers =>
    intro i u' hu' hm
    obtain ⟨u, -, rfl⟩ := hended i u' hu'
    cases hm
  case tasks =>
    intro i u' hu' ho
    obtain ⟨u, -, rfl⟩ := hended i u' hu'
    cases ho
  case clean =>
    intro p f' i hf' ho
    obtain ⟨f, hf, hown, -, hkeep⟩ := hold p f' hf'
    obtain rfl := hkeep (by rw [unflushed, ← hown, ho])
    obtain ⟨hlen, u, hu, hp, hd⟩ := h.clean p f' i hf ho
    exact ⟨hlen, _, Option.map_eq_some_iff.mpr ⟨u, hu, rfl⟩, hp, hd⟩
  case home =>
    intro p f' i hf' ho
    obtain ⟨f, hf, hown, -⟩ := hold p f' hf'
    obtain ⟨u, hu, hp⟩ := h.home p f i hf (hown.symm.trans ho)
    exact ⟨_, Option.map_eq_some_iff.mpr ⟨u, hu, rfl⟩, hp⟩
  case whole =>
    intro p f' hf'
    obtain ⟨f, hf, hown, -, hkeep⟩ := hold p f' hf'
    cases hun : s.unflushed f with
    | false =>
      obtain rfl := hkeep hun
      rcases h.whole p f' hf with hw | hw | ⟨i, u, hi, hu, hunsaved⟩
      · exact .inl hw
      · exact .inr (.inl hw)
      · exact (hc p f' i u hf hi hu hunsaved f' hf').imp_right .inl
    | true =>
      unfold unflushed at hun
      split at hun
      next => cases hun
      next => cases hun
      next i hi =>
        obtain ⟨u, hu, hplace⟩ := (Option.any_eq_true _ _).mp hun
        refine (hc p f i u hf hi hu ?_ f' hf').imp_right .inl
        split at hplace
        next hp =>
          rw [hp]
          rfl
        next => cases hplace
  case queue =>
    intro t ht
    cases ht
  case stopped =>
    intro _ i u' hu'
    obtain ⟨u, -, rfl⟩ := hended i u' hu'
    exact ⟨_, rfl⟩

/-- A careful step keeps the law. -/
theorem Law.step {s' : Intake κ} {a : Act κ} (h : s.Law d loads) (hc : s.Careful loads a)
    (hs : s.step d loads a = some s') : s'.Law d loads := by
  cases a with
  | begin i name nLeng =>
    simp only [Intake.step, Option.ite_none_right_eq_some, Bool.and_eq_true,
      Option.isNone_iff_eq_none] at hs
    obtain ⟨⟨hr, hi⟩, hs⟩ := hs
    cases hs
    exact h.begin hr hi
  | upload i op =>
    obtain ⟨u, hu, hs⟩ := Option.bind_eq_some_iff.mp hs
    exact h.uploadStep hu hc hs
  | archive p q =>
    obtain ⟨f, hf, hs⟩ := Option.bind_eq_some_iff.mp hs
    rw [Option.ite_none_right_eq_some] at hs
    obtain ⟨hsettled, hs⟩ := hs
    cases hs
    exact h.archive hf hsettled
  | crash kept => exact h.crash hc hs
  | start dir =>
    simp only [Intake.step, Option.ite_none_left_eq_some, Bool.not_eq_true] at hs
    obtain ⟨hr, hs⟩ := hs
    cases hs
    have hrec := h.recoverFiles (dir.getD []) hr
    exact ⟨hrec.markers, hrec.tasks, hrec.clean, hrec.home, hrec.whole, hrec.queue,
      fun hr => by cases hr⟩

end

end Intake

/-! ### Which files can be loaded -/

/-- What the file holds behind a `<$MAILLIST>` section. -/
def skipBatches : Nat → Text → Text
  | 0, pIn => pIn
  | fuel + 1, pIn =>
      let batch := gather (pIn.length + 1) [] pIn
      if batch.2.2 then batch.2.1 else skipBatches fuel batch.2.1

/-- `ReadTaskFileWithLevel` sets `sModula`. -/
def setsModulaFrom : Nat → Text → Bool
  | 0, _ => false
  | fuel + 1, pIn =>
      match fgets 1023 pIn with
      | none => false
      | some (sLine, pIn) =>
          if strncmpEq sLine "<$ID>".toList then
            let pIn := ((fgets 1000 pIn).getD (sLine, [])).2
            setsModulaFrom fuel (skipSection "</$ID>".toList (pIn.length + 1) pIn)
          else if strncmpEq sLine "<$MODULA>".toList then true
          else if strncmpEq sLine "<$MAILLIST>".toList then
            let pIn := ((fgets 4194303 pIn).getD ([], [])).2
            setsModulaFrom fuel (skipBatches (pIn.length + 1) pIn)
          else setsModulaFrom fuel pIn

def setsModula (pIn : Text) : Bool := setsModulaFrom (pIn.length + 1) pIn

section
variable {κ : Type*} [DecidableEq κ] (d : TaskDirs κ)

/-- When no write fails, and the process never ends while a file with a part missing is there that
can be loaded, uploads end well. -/
theorem received_run {s s' : Intake κ} {as : List (Act κ)} (h₀ : s.Initial)
    (h : Run (Guarded (Intake.Careful setsModula) fun s a s' => s.step d setsModula a = some s')
      s as s') : s'.Received d := by
  have hlaw : s'.Law d setsModula :=
    h.invariant (fun _ _ _ hlaw hstep => hlaw.step hstep.1 hstep.2) h₀.law
  exact hlaw.received

end

/-! ### Two runs -/

/-- A directory without links. -/
def sampleDirs : TaskDirs Text := ⟨"t".toList, "b".toList, id⟩

def sampleContent : Text := "<$MODULA>\nhi\n".toList

/-- A task file is there from before. -/
def sampleIntake : Intake Text where
  files p := if p = "t/a".toList then some ⟨sampleContent, 13, .unknown⟩ else none
  bak _ := false
  uploads _ := none
  queue := []
  running := false

theorem initial_sampleIntake : sampleIntake.Initial where
  files p f hf := by
    obtain ⟨-, hf⟩ := Option.ite_none_right_eq_some.mp hf
    cases hf
    exact ⟨rfl, rfl⟩
  uploads _ := rfl
  queue := rfl
  running := rfl

/-- The daemon recovers the file, and then receives another one. -/
def receiveActs : List (Act Text) :=
  [.start (some ["t/a".toList]), .begin 0 "c".toList 13, .upload 0 (.mark true),
    .upload 0 (.openFile true), .upload 0 (.receive sampleContent 13), .upload 0 .close,
    .upload 0 .unmark, .upload 0 .load]

/-- The daemon stops when thirteen of forty bytes have come, and is started again. -/
def breakActs : List (Act Text) :=
  [.start none, .begin 0 "c".toList 40, .upload 0 (.mark true), .upload 0 (.openFile true),
    .upload 0 (.receive sampleContent 13), .crash fun _ => 13,
    .start (some ["t/c.tmp".toList, "t/c".toList])]

/-- A sufficient test of `Intake.Careful`. -/
def Intake.checked (_ : Intake Text) : Act Text → Bool
  | .upload _ (.receive chunk kept) => decide (chunk.length ≤ kept)
  | .crash _ => false
  | _ => true

theorem Intake.careful_of_checked (s : Intake Text) (a : Act Text) (h : s.checked a = true) :
    s.Careful setsModula a := by
  cases a with
  | upload i op =>
    cases op with
    | receive chunk kept => exact (of_decide_eq_true h : chunk.length ≤ kept)
    | _ => trivial
  | crash kept => cases h
  | _ => trivial

theorem received_run_two_tasks :
    ∃ s : Intake Text, s.queue.length = 2 ∧ s.Received sampleDirs := by
  have hrun : ((receiveActs.foldlM
      (fun (s : Intake Text) a => if s.checked a then s.step sampleDirs setsModula a else none)
      sampleIntake).any fun s => s.queue.length == 2) = true := by decide +kernel
  obtain ⟨s, hs, hend⟩ := (Option.any_eq_true _ _).mp hrun
  exact ⟨s, beq_iff_eq.mp hend,
    received_run sampleDirs initial_sampleIntake (Run.of_checked Intake.careful_of_checked hs)⟩

/-- Thirteen bytes of forty become a task. -/
theorem part_in_queue : ∃ (s s' : Intake Text) (as : List (Act Text)), s.Initial ∧
    Run (fun s a s' => s.step sampleDirs setsModula a = some s') s as s' ∧
      ¬ s'.Received sampleDirs := by
  have hrun : ((breakActs.foldlM (fun (s : Intake Text) a => s.step sampleDirs setsModula a)
      sampleIntake).any fun s => s.queue.any fun t => t.content.length != t.announced) = true :=
        by decide +kernel
  obtain ⟨s', hs', hend⟩ := (Option.any_eq_true _ _).mp hrun
  obtain ⟨t, ht, hne⟩ := List.any_eq_true.mp hend
  exact ⟨sampleIntake, s', breakActs, initial_sampleIntake, .of_foldlM hs',
    fun h => bne_iff_ne.mp hne (h.whole t ht)⟩

end Edm.Maillist

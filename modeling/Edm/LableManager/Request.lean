import Edm.LableManager.RequestLine
import Edm.LableManager.ScanLog
import Edm.Support.StdMap
import Mathlib.Data.List.Lex

/-!
# LableManager — Request

A client asks the label manager by a URL: `/insert?` or `/query?`, and behind it fields with an `=`
in each and an `&` between two.  `epoll_input` is called as often as something has arrived, and
reads what is there; when a line is complete it parses the request, and hands it to a worker.

* `paramLoop_eq`: the fields that are found are those between the `&`.
* `request_run`: in whatever pieces a request arrives, it is handed over once, with the fields that
  the client wrote.
-/

namespace Edm.LableManager
open Support ScanLog

/-! ### The action -/

def TA_INSERT : Nat := 1
def TA_QUERY : Nat := 2

structure TaskAction where
  type : Nat
  param : StdMap Text Text

/-- What an `&`, or the end, does with a field and its value. -/
def storeField (field value : Text) (param : StdMap Text Text) : StdMap Text Text :=
  if 0 < field.length then param.set (tolower field) value else param

/-- The loop of `parse_task_action`; `onValue` says that `target` is the value. -/
def paramLoop : Text → Text → Text → Bool → StdMap Text Text → StdMap Text Text
  | [], field, value, _, param => storeField field value param
  | c :: url, field, value, onValue, param =>
      if c = '=' then paramLoop url field value true param
      else if c = '&' then paramLoop url [] [] false (storeField field value param)
      else if onValue = true then paramLoop url field (value ++ [c]) onValue param
      else paramLoop url (field ++ [c]) value onValue param

/-- `parse_task_action`, with the paths of a service; `none` for -1. -/
def taskAction (paths : List (Text × Nat)) (url : Text) : Option TaskAction :=
  (paths.find? fun p => strncasecmpEq url p.1).map fun p =>
    ⟨p.2, paramLoop ((cstr url).drop p.1.length) [] [] false .empty⟩

def parseTaskAction (url : Text) : Option TaskAction :=
  taskAction [("/insert?".toList, TA_INSERT), ("/query?".toList, TA_QUERY)] url

end Edm.LableManager

namespace Edm.DeliverHelp
open Support LableManager

def TA_DO : Nat := 1

def parseTaskAction (url : Text) : Option TaskAction := taskAction [("/do?".toList, TA_DO)] url

end Edm.DeliverHelp

namespace Edm.LableManager
open Support ScanLog

/-! ### The input of a connection -/

/-- Whether `recv_until_edge` comes upon the end of what the peer sends, and sets
`peer_shutdown_flag`. -/
def shutdownLoop : Nat → List Arrival → Nat → Bool
  | 0, _, _ => false
  | fuel + 1, s, remaining =>
      if remaining = 0 then false
      else match recv (min remaining 512) s with
        | (.eintr, s) => shutdownLoop fuel s remaining
        | (.eagain, _) | (.error, _) => false
        | (.bytes [], _) => true
        | (.bytes (c :: t), s) => shutdownLoop fuel s (remaining - (c :: t).length)

def peerShutdown (s : List Arrival) : Bool := shutdownLoop (callsOf s + 1) s MAX_LENGTH

/-- What `epoll_input` reads and writes of a `task_context_t`. -/
structure TaskContext where
  recvbuf : Text
  request : HttpRequest
  action : TaskAction
  /-- `synlock` is taken. -/
  synlock : Bool

/-- How `epoll_input` ends: three ways to return 0, the call that hands the context over, and -1. -/
inductive Input where
  | busy | stuck | waits | handed | fails
  deriving DecidableEq

/-- The context that `epoll_accept` makes. -/
def TaskContext.accepted : TaskContext := ⟨[], ⟨HTTP_NULL, [], []⟩, ⟨0, .empty⟩, false⟩

/-- `method |= HTTP_CLOSE` when `peer_shutdown_flag` is set. -/
def HttpRequest.closedIf (peer_shutdown_flag : Bool) (request : HttpRequest) : HttpRequest :=
  if peer_shutdown_flag then { request with method := request.method ||| HTTP_CLOSE } else request

/-- `epoll_input`.  The flag is one for the whole process: `others` says that an import has come upon
the end of its own peer between the two lines here that reset it and test it. -/
def epollInput (tctx : TaskContext) (s : List Arrival) (others : Bool) : Input × TaskContext :=
  if tctx.synlock then (.busy, tctx)
  else match recvUntilEdge s tctx.recvbuf MAX_LENGTH with
    | (ret, recvbuf, _) =>
      let tctx := { tctx with synlock := true, recvbuf := recvbuf }
      if ret < 0 then (if tctx.request.method = HTTP_NULL then .fails else .stuck, tctx)
      else if '\n' ∉ recvbuf then
        if MAX_LENGTH < recvbuf.length then (.fails, tctx)
        else (.waits, { tctx with synlock := false })
      else match parseRequestLine recvbuf with
        | none => (.fails, tctx)
        | some request => match parseTaskAction request.url with
            | none => (.fails, { tctx with request := request })
            | some action =>
                (.handed, { tctx with
                  request := request.closedIf (peerShutdown s || others)
                  action := action })

/-- `epoll_input`, each time with what has arrived meanwhile, as long as it waits for more. -/
def epollInputs (tctx : TaskContext) : List (List Arrival × Bool) → Input × TaskContext
  | [] => (.waits, tctx)
  | (s, others) :: ss =>
      match epollInput tctx s others with
      | (.waits, tctx) => epollInputs tctx ss
      | r => r

/-! ### The fields -/

/-- What a piece between two `&` stores: the field before the first `=`, and what is behind it
without the others. -/
def storePiece (param : StdMap Text Text) (piece : Text) : StdMap Text Text :=
  storeField (piece.takeWhile (· != '=')) ((piece.dropWhile (· != '=')).filter (· != '=')) param

theorem paramLoop_field {s : Text} (hs : '&' ∉ s) (heq : '=' ∉ s) (t field value : Text)
    (param : StdMap Text Text) :
    paramLoop (s ++ t) field value false param = paramLoop t (field ++ s) value false param := by
  induction s generalizing field with
  | nil => rw [List.nil_append, List.append_nil]
  | cons c s ih =>
      rw [List.mem_cons, not_or] at hs heq
      rw [List.cons_append, paramLoop, if_neg (Ne.symm heq.1), if_neg (Ne.symm hs.1),
        if_neg (by simp), ih hs.2 heq.2, List.append_assoc, List.singleton_append]

theorem paramLoop_value {s : Text} (hs : '&' ∉ s) (t field value : Text)
    (param : StdMap Text Text) :
    paramLoop (s ++ t) field value true param
      = paramLoop t field (value ++ s.filter (· != '=')) true param := by
  induction s generalizing value with
  | nil => rw [List.nil_append, List.filter_nil, List.append_nil]
  | cons c s ih =>
      rw [List.mem_cons, not_or] at hs
      rw [List.cons_append, paramLoop]
      by_cases hc : c = '='
      · rw [if_pos hc, ih hs.2, List.filter_cons_of_neg (by simp [hc])]
      · rw [if_neg hc, if_neg (Ne.symm hs.1), if_pos rfl, ih hs.2,
          List.filter_cons_of_pos (by simp [hc]), List.append_assoc, List.singleton_append]

/-- The loop goes through a piece. -/
theorem paramLoop_piece {s : Text} (hs : '&' ∉ s) : ∃ onValue, ∀ (t : Text)
    (param : StdMap Text Text), paramLoop (s ++ t) [] [] false param
      = paramLoop t (s.takeWhile (· != '=')) ((s.dropWhile (· != '=')).filter (· != '=')) onValue
          param := by
  by_cases heq : '=' ∈ s
  · obtain ⟨a, b, rfl, ha⟩ := List.eq_append_cons_of_mem heq
    rw [List.mem_append, List.mem_cons, not_or, not_or] at hs
    refine ⟨true, fun t param => ?_⟩
    rw [takeWhile_ne_append ha, dropWhile_ne_append ha, List.append_assoc, List.cons_append,
      paramLoop_field hs.1 ha, paramLoop, if_pos rfl, paramLoop_value hs.2.2,
      List.filter_cons_of_neg (by simp)]
    rfl
  · refine ⟨false, fun t param => ?_⟩
    rw [takeWhile_ne heq, dropWhile_ne heq, paramLoop_field hs heq, List.nil_append,
      List.filter_nil]

/-- The loop stores the pieces between the `&`, one after the other. -/
theorem paramLoop_eq (url : Text) (param : StdMap Text Text) :
    paramLoop url [] [] false param = (url.splitOn '&').foldl storePiece param := by
  induction url using split_induction '&' generalizing param with
  | last s hs =>
      obtain ⟨onValue, hloop⟩ := paramLoop_piece hs
      rw [List.splitOn_eq_singleton hs, ← List.append_nil s, hloop, List.append_nil]
      rfl
  | more s t hs ih =>
      obtain ⟨onValue, hloop⟩ := paramLoop_piece hs
      rw [splitOn_more hs, hloop, paramLoop, if_neg (by decide), if_pos rfl, ih]
      rfl

/-- A field that a client writes. -/
structure IsField (p : Text × Text) : Prop where
  ne_nil : p.1 ≠ []
  field : '=' ∉ p.1 ∧ '&' ∉ p.1
  value : '=' ∉ p.2 ∧ '&' ∉ p.2
  /-- The URL goes on, and so does the line. -/
  goesOn : ∀ c ∈ p.1 ++ p.2, c ≠ ' ' ∧ c ≠ '\n' ∧ c ≠ nul

/-- The fields as the client writes them. -/
def fieldsText (ps : List (Text × Text)) : Text :=
  ['&'].intercalate (ps.map fun p => p.1 ++ '=' :: p.2)

theorem storePiece_field {p : Text × Text} (hp : IsField p) (param : StdMap Text Text) :
    storePiece param (p.1 ++ '=' :: p.2) = param.set (tolower p.1) p.2 := by
  have hfilter : p.2.filter (· != '=') = p.2 :=
    List.filter_eq_self.mpr fun c hc => bne_iff_ne.mpr (ne_of_mem_of_not_mem hc hp.value.1)
  rw [storePiece, takeWhile_ne_append hp.field.1, dropWhile_ne_append hp.field.1,
    List.filter_cons_of_neg (by simp), hfilter, storeField,
    if_pos (List.length_pos_iff.mpr hp.ne_nil)]

/-- What the client has written is what is found; a field that is written twice has the last
value. -/
theorem paramLoop_fieldsText {ps : List (Text × Text)} (hps : ∀ p ∈ ps, IsField p) :
    paramLoop (fieldsText ps) [] [] false .empty
      = ps.foldl (fun param p => param.set (tolower p.1) p.2) .empty := by
  rw [paramLoop_eq]
  cases ps with
  | nil => rfl
  | cons p ps =>
      rw [fieldsText, List.splitOn_intercalate, List.foldl_map]
      · exact List.foldl_ext _ _ _ fun param q hq => storePiece_field (hps q hq) param
      · intro piece hpiece
        obtain ⟨q, hq, rfl⟩ := List.mem_map.mp hpiece
        have hfield := (hps q hq).field
        have hvalue := (hps q hq).value
        simp [hfield.2, hvalue.2]
      · simp

/-! ### The request -/

/-- The paths, in any case. -/
def IsPath (path : Text) (type : Nat) : Prop :=
  (tolower path = "/insert?".toList ∧ type = TA_INSERT) ∨
    (tolower path = "/query?".toList ∧ type = TA_QUERY)

/-- A request of a client. -/
structure Asked where
  m : Text
  method : Nat
  isMethod : IsMethod m method
  path : Text
  type : Nat
  isPath : IsPath path type
  fields : List (Text × Text)
  areFields : ∀ p ∈ fields, IsField p

namespace Asked
variable (r : Asked)

def url : Text := r.path ++ fieldsText r.fields

/-- The request line. -/
def line : Text := r.m ++ ' ' :: (r.url ++ ' ' :: "HTTP/1.1\r".toList)

def action : TaskAction :=
  ⟨r.type, r.fields.foldl (fun param p => param.set (tolower p.1) p.2) .empty⟩

def request : HttpRequest := ⟨r.method, r.url, "HTTP/1.1".toList⟩

end Asked

/-- The characters of a word in any case are letters, or stand in the word. -/
theorem ne_of_tolower {m key : Text} (h : tolower m = key) {d : Char} (hd : d.toLower = d)
    (hkey : d ∉ key) : d ∉ m := by
  intro hin
  apply hkey
  rw [← h, ← hd]
  exact List.mem_map_of_mem hin

namespace Asked
variable (r : Asked)

theorem not_mem_m {d : Char} (hd : d = ' ' ∨ d = '\n' ∨ d = nul) : d ∉ r.m := by
  rcases r.isMethod with ⟨hm, -⟩ | ⟨hm, -⟩ <;> rcases hd with rfl | rfl | rfl <;>
    exact ne_of_tolower hm (by decide) (by decide)

theorem not_mem_fieldsText {ps : List (Text × Text)} (hps : ∀ p ∈ ps, IsField p) {d : Char}
    (hd : d = ' ' ∨ d = '\n' ∨ d = nul) : d ∉ fieldsText ps := by
  have hne : d ≠ '&' ∧ d ≠ '=' := by rcases hd with rfl | rfl | rfl <;> decide
  refine not_mem_intercalate hne.1 fun piece hpiece hin => ?_
  obtain ⟨p, hp, rfl⟩ := List.mem_map.mp hpiece
  have hgoesOn := (hps p hp).goesOn d
  rw [List.mem_append, List.mem_cons, or_iff_right_of_imp (a := d = '=')
    fun heq => absurd heq hne.2] at hin
  obtain ⟨hspace, hline, hnul⟩ := hgoesOn (List.mem_append.mpr hin)
  rcases hd with rfl | rfl | rfl
  · exact hspace rfl
  · exact hline rfl
  · exact hnul rfl

theorem not_mem_url {d : Char} (hd : d = ' ' ∨ d = '\n' ∨ d = nul) : d ∉ r.url := by
  rw [url, List.mem_append, not_or]
  refine ⟨?_, not_mem_fieldsText r.areFields hd⟩
  rcases r.isPath with ⟨hp, -⟩ | ⟨hp, -⟩ <;> rcases hd with rfl | rfl | rfl <;>
    exact ne_of_tolower hp (by decide) (by decide)

theorem not_mem_line {d : Char} (hd : d = '\n' ∨ d = nul) : d ∉ r.line := by
  have hne : d ≠ ' ' ∧ d ∉ "HTTP/1.1\r".toList := by rcases hd with rfl | rfl <;> decide
  rw [line, List.mem_append, List.mem_cons, List.mem_append, List.mem_cons]
  rintro (hin | hin | hin | hin | hin)
  · exact r.not_mem_m (.inr hd) hin
  · exact hne.1 hin
  · exact r.not_mem_url (.inr hd) hin
  · exact hne.1 hin
  · exact hne.2 hin

theorem url_head : ∃ c, r.url.head? = some c ∧ Postmaster.isblank c = false := by
  obtain ⟨key, hkey⟩ : ∃ key, tolower r.path = '/' :: key := by
    rcases r.isPath with ⟨hp, -⟩ | ⟨hp, -⟩
    · exact ⟨_, hp⟩
    · exact ⟨_, hp⟩
  obtain ⟨c, path, hpath, hc, -⟩ := List.map_eq_cons_iff.mp hkey
  obtain rfl := (toLower_eq_iff (by decide)).mp hc
  exact ⟨'/', by rw [url, hpath]; rfl, rfl⟩

/-- The request line is parsed as soon as it is complete, whatever is behind it. -/
theorem parseRequestLine_line (rest : Text) :
    parseRequestLine (r.line ++ '\n' :: rest) = some r.request := by
  have hcstr : cstr (r.line ++ '\n' :: rest) = r.line ++ '\n' :: cstr rest := by
    rw [cstr, List.takeWhile_append_of_pos, List.takeWhile_cons_of_pos (by decide)]
    · rfl
    · exact fun c hc => bne_iff_ne.mpr (ne_of_mem_of_not_mem hc (r.not_mem_line (.inr rfl)))
  have hblank : Blanks [' '] := by
    intro c hc
    rw [List.mem_singleton.mp hc]
    rfl
  rw [parseRequestLine, requestLine_iff (nul_not_mem_cstr _), hcstr]
  refine ⟨r.m, [' '], [' '], [], '\r' :: '\n' :: cstr rest, ?_, r.isMethod, hblank, by simp,
    r.url_head, ⟨hblank, .inl ⟨r.not_mem_url (.inl rfl), rfl⟩⟩,
    ⟨"HTTP/".toList, '1', '1', rfl, rfl, rfl, rfl⟩, fun c hc => (by cases hc), by simp⟩
  rw [line, List.append_assoc, List.cons_append, List.append_assoc, List.cons_append]
  rfl

theorem parseTaskAction_url : parseTaskAction r.url = some r.action := by
  have hnul : nul ∉ r.path ++ fieldsText r.fields := r.not_mem_url (.inr (.inr rfl))
  have hpath : nul ∉ r.path := mt (List.mem_append_left _) hnul
  have hword : ∀ key : Text, r.path.length = key.length →
      strncasecmpEq r.url key = (tolower r.path == tolower key) :=
    fun key hlen => strncasecmpEq_append hlen hpath _
  have hfields : ∀ n, r.path.length = n → paramLoop ((cstr r.url).drop n) [] [] false
      .empty = r.fields.foldl (fun param p => param.set (tolower p.1) p.2) .empty := by
    intro n hlen
    rw [url, cstr_self hnul, List.drop_left' hlen, paramLoop_fieldsText r.areFields]
  unfold parseTaskAction taskAction action
  rcases r.isPath with ⟨hp, htype⟩ | ⟨hp, htype⟩
  · have hlen : r.path.length = 8 := length_of_tolower hp
    rw [List.find?_cons_of_pos]
    · rw [Option.map_some, htype]
      exact congrArg (fun param => some (TaskAction.mk TA_INSERT param)) (hfields 8 hlen)
    · rw [hword "/insert?".toList hlen, hp]
      rfl
  · have hlen : r.path.length = 7 := length_of_tolower hp
    rw [List.find?_cons_of_neg, List.find?_cons_of_pos]
    · rw [Option.map_some, htype]
      exact congrArg (fun param => some (TaskAction.mk TA_QUERY param)) (hfields 7 hlen)
    · rw [hword "/query?".toList hlen, hp]
      rfl
    · rw [url, strncasecmpEq_iff hnul]
      intro h
      have htake := congrArg (List.take 7) h
      rw [tolower, List.map_take, List.take_take, ← List.map_take, List.take_append_of_le_length
        (by rw [hlen]; decide), List.take_of_length_le (by rw [hlen]; decide), ← tolower, hp] at htake
      exact absurd htake (by decide)

end Asked

/-! ### The pieces -/

/-- `recv_until_edge` takes all that has arrived, as far as there is room. -/
theorem recvLoop_flow {length fuel : Nat} : ∀ {s : List Arrival} {result : Text} {remaining : Nat},
    Unbroken s → callsOf s < fuel → shutdownLoop fuel s remaining = false ∧ ∃ s',
      recvLoop length fuel s result remaining = ((length : Int) - remaining +
        ((arriving s).take remaining).length, result ++ (arriving s).take remaining, s') := by
  induction fuel with
  | zero => exact fun _ hfuel => absurd hfuel (Nat.not_lt_zero _)
  | succ fuel ih =>
    intro s result remaining hs hfuel
    rw [recvLoop, shutdownLoop]
    by_cases hzero : remaining = 0
    · subst hzero
      exact ⟨if_pos rfl, s, by simp⟩
    · rw [if_neg hzero, if_neg hzero]
      by_cases hne : s = []
      · subst hne
        exact ⟨rfl, [], by simp [recv]⟩
      · obtain ⟨r, s', hrecv, hs', hcalls, hr⟩ := recv_flow (by omega : 0 < min remaining 512) hs hne
        rw [hrecv]
        rcases hr with ⟨rfl, htext⟩ | ⟨c, t, rfl, hsize, htext⟩
        · obtain ⟨hshut, s'', heq⟩ := @ih s' result remaining hs' (by omega)
          exact ⟨hshut, s'', by rw [htext]; exact heq⟩
        · obtain ⟨hshut, s'', heq⟩ := @ih s' (result ++ c :: t) (remaining - (c :: t).length) hs'
            (by omega)
          refine ⟨hshut, s'', heq.trans ?_⟩
          have htake : (arriving s).take remaining
              = c :: t ++ (arriving s').take (remaining - (c :: t).length) := by
            rw [htext, List.take_append, List.take_of_length_le (by omega)]
          rw [htake, ← List.append_assoc, List.length_append]
          exact congrArg (·, result ++ c :: t ++ _, s'') (by omega)

theorem recvUntilEdge_flow {s : List Arrival} (hs : Unbroken s) (recvbuf : Text) :
    peerShutdown s = false ∧ ∃ s', recvUntilEdge s recvbuf MAX_LENGTH
      = ((((arriving s).take MAX_LENGTH).length : Int), recvbuf ++ (arriving s).take MAX_LENGTH,
        s') := by
  obtain ⟨hshut, s', heq⟩ :=
    @recvLoop_flow MAX_LENGTH _ s recvbuf MAX_LENGTH hs (Nat.lt_succ_self (callsOf s))
  refine ⟨hshut, s', heq.trans ?_⟩
  exact congrArg (·, _, s') (by omega)

namespace Asked
variable (r : Asked)

/-- The context while the request is not complete. -/
def waiting (recvbuf : Text) : TaskContext := { TaskContext.accepted with recvbuf := recvbuf }

/-- A piece behind which the line is not complete. -/
theorem epollInput_waits {s : List Arrival} (hs : Unbroken s) {recvbuf : Text}
    (hline : '\n' ∉ recvbuf ++ arriving s) (hlen : (recvbuf ++ arriving s).length < MAX_LENGTH)
    (others : Bool) :
    epollInput (waiting recvbuf) s others = (.waits, waiting (recvbuf ++ arriving s)) := by
  obtain ⟨-, s', hrecv⟩ := recvUntilEdge_flow hs recvbuf
  rw [List.length_append] at hlen
  rw [List.take_of_length_le (by omega)] at hrecv
  unfold epollInput
  rw [if_neg (by simp [waiting, TaskContext.accepted])]
  dsimp only [waiting]
  rw [hrecv]
  dsimp only
  rw [if_neg (by omega), if_pos hline, if_neg (by rw [List.length_append]; omega)]
  rfl

/-- The piece that completes it. -/
theorem epollInput_handed {s : List Arrival} (hs : Unbroken s) {recvbuf rest : Text}
    (hbuf : recvbuf ++ (arriving s).take MAX_LENGTH = r.line ++ '\n' :: rest) (others : Bool) :
    epollInput (waiting recvbuf) s others
      = (.handed, ⟨r.line ++ '\n' :: rest, r.request.closedIf others, r.action, true⟩) := by
  obtain ⟨hshut, s', hrecv⟩ := recvUntilEdge_flow hs recvbuf
  rw [hbuf] at hrecv
  unfold epollInput
  rw [if_neg (by simp [waiting, TaskContext.accepted])]
  dsimp only [waiting]
  rw [hrecv]
  dsimp only
  rw [if_neg (by omega), if_neg (by simp), r.parseRequestLine_line]
  dsimp only [request]
  rw [r.parseTaskAction_url, hshut, Bool.false_or]

/-- What has come is short of the line, or has all of it. -/
theorem prefix_cases {line rest got : Text} (h : got <+: line ++ '\n' :: rest) :
    got.length ≤ line.length ∨ ∃ behind, behind <+: rest ∧ got = line ++ '\n' :: behind := by
  rw [← List.singleton_append, ← List.append_assoc] at h
  refine (Nat.lt_or_ge line.length got.length).symm.imp id fun hlt => ?_
  obtain ⟨behind, rfl⟩ := List.prefix_of_prefix_length_le (List.prefix_append _ rest) h
    (by rw [List.length_append]; exact hlt)
  exact ⟨behind, (List.prefix_append_right_inj _).mp h, by simp⟩

/-- **A request is handed over once, however it arrives**: whatever the pieces are in which the
request line, and what is behind it, come, `epoll_input` waits until the line is complete, and then
has the fields that the client wrote; the method is closed if another thread has set the flag during
the last of its calls. -/
theorem request_run (hlen : r.line.length < MAX_LENGTH) {ss : List (List Arrival × Bool)}
    (hss : ∀ s ∈ ss, Unbroken s.1) {rest : Text}
    (htext : ss.flatMap (fun s => arriving s.1) = r.line ++ '\n' :: rest) :
    ∃ behind s, behind <+: rest ∧ s ∈ ss ∧ epollInputs .accepted ss
      = (.handed, ⟨r.line ++ '\n' :: behind, r.request.closedIf s.2, r.action, true⟩) := by
  suffices h : ∀ recvbuf, recvbuf ++ ss.flatMap (fun s => arriving s.1) = r.line ++ '\n' :: rest →
      '\n' ∉ recvbuf → ∃ behind s, behind <+: rest ∧ s ∈ ss ∧ epollInputs (waiting recvbuf) ss
        = (.handed, ⟨r.line ++ '\n' :: behind, r.request.closedIf s.2, r.action, true⟩) from
    h [] htext (by simp)
  clear htext
  induction ss with
  | nil =>
      intro recvbuf htext hline
      rw [List.flatMap_nil, List.append_nil] at htext
      rw [htext] at hline
      simp at hline
  | cons e ss ih =>
      obtain ⟨s, others⟩ := e
      intro recvbuf htext hline
      obtain ⟨hs, hss⟩ := List.forall_mem_cons.mp hss
      rw [List.flatMap_cons, ← List.append_assoc] at htext
      dsimp only at hs htext
      have hgot : recvbuf ++ arriving s <+: r.line ++ '\n' :: rest := ⟨_, htext⟩
      by_cases hin : '\n' ∈ recvbuf ++ arriving s
      · -- The line is complete, and as much is read as there is room for.
        have hread : recvbuf ++ (arriving s).take MAX_LENGTH <+: r.line ++ '\n' :: rest :=
          ((List.prefix_append_right_inj _).mpr (List.take_prefix _ _)).trans hgot
        rcases prefix_cases hread with hle | ⟨behind, hbehind, hbuf⟩
        · rw [List.length_append, List.length_take] at hle
          rw [List.take_of_length_le (by omega)] at hread
          have hpre : recvbuf ++ arriving s <+: r.line :=
            List.prefix_of_prefix_length_le hread (List.prefix_append _ _)
              (by rw [List.length_append]; omega)
          exact absurd (hpre.subset hin) (r.not_mem_line (.inl rfl))
        · exact ⟨behind, (s, others), hbehind, List.mem_cons_self,
            by rw [epollInputs, r.epollInput_handed hs hbuf]⟩
      · rcases prefix_cases hgot with hle | ⟨behind, -, hbuf⟩
        · obtain ⟨behind, last, hbehind, hlast, hrun⟩ := ih hss _ htext hin
          refine ⟨behind, last, hbehind, List.mem_cons_of_mem _ hlast, ?_⟩
          rw [epollInputs, epollInput_waits hs hin (by omega)]
          exact hrun
        · rw [hbuf] at hin
          simp at hin

/-- A client asks for the number of the rows of a label. -/
def countRows : Asked where
  m := "get".toList
  method := HTTP_GET
  isMethod := .inl ⟨rfl, rfl⟩
  path := "/Query?".toList
  type := TA_QUERY
  isPath := .inr ⟨rfl, rfl⟩
  fields := [("Label".toList, "7".toList), ("type".toList, "count".toList)]
  areFields := by
    intro p hp
    simp only [List.mem_cons, List.not_mem_nil, or_false] at hp
    rcases hp with rfl | rfl
    · exact ⟨by simp, by simp, by simp, by simp [nul]⟩
    · exact ⟨by simp, by simp, by simp, by simp [nul]⟩

/-- It comes in two pieces, the first while an import is at the end of what its peer sends. -/
def countPieces : List (List Arrival × Bool) :=
  [([.piece "get /Query?Lab".toList], true),
    ([.interrupted, .piece "el=7&type=count HTTP/1.1\r\nHost: l\r\n".toList], false)]

theorem request_run_countRows : ∃ behind s, behind <+: "Host: l\r\n".toList ∧ s ∈ countPieces ∧
    epollInputs .accepted countPieces = (.handed,
      ⟨countRows.line ++ '\n' :: behind, countRows.request.closedIf s.2, countRows.action, true⟩) :=
  countRows.request_run (by decide) (by simp [countPieces, Unbroken, Arrival.IsData]) rfl

end Asked

end Edm.LableManager

import WorkflowLint.Proofs.Server.Actions

/-! What a server holds and has published, told from the messages alone. Whatever else is handled
in between, a document is what its last edit says, read with the options that were known then. -/
namespace WorkflowLint.Server
open Text (LineIndex Position)

inductive Message where
  | request (r : Request)
  | notification (n : Notification)

/-! The messages that are handled -/

namespace Message

def OneText : Message → Prop
  | .request _ => True
  | .notification n => n.OneText

def heededIn (phase : Phase) : Message → Bool
  | .request (.start _) => phase = .new
  | .request _ | .notification _ => phase = .running

def phaseAfter (phase : Phase) : Message → Phase
  | .request (.start _) => .running
  | .request .shutdown => .stopped
  | _ => phase

def repositoryAfter (repository : Repository) : Message → Repository
  | .request (.start options) => .ofOptions options
  | _ => repository

def heeded : Phase → List Message → List Message
  | _, [] => []
  | phase, m :: ms =>
    if m.heededIn phase then m :: heeded (m.phaseAfter phase) ms else heeded phase ms

theorem mem_of_mem_heeded {phase : Phase} {m : Message} {ms : List Message}
    (h : m ∈ heeded phase ms) : m ∈ ms := by
  induction ms generalizing phase with
  | nil => cases h
  | cons first ms ih =>
    unfold heeded at h
    split at h
    · obtain rfl | h := List.mem_cons.mp h
      · exact List.mem_cons_self
      · exact List.mem_cons_of_mem first (ih h)
    · exact List.mem_cons_of_mem first (ih h)

end Message

namespace State

def serve (s : State) : Message → State × List Publication
  | .request (.start options) =>
    ({ s with phase := .running, repository := .ofOptions options }, [])
  | .request .shutdown => ({ s with phase := .stopped }, [])
  | .request (.hover _ _) | .request (.completion _ _) => (s, [])
  | .notification n => s.performAll (s.actions n)

def handle (s : State) : Message → State × List Publication
  | .request r => ((s.request r).1, [])
  | .notification n => s.notify n

def run (step : State → Message → State × List Publication) (s : State) :
    List Message → State × List Publication
  | [] => (s, [])
  | m :: ms =>
    let (s, now) := step s m
    let (s, later) := run step s ms
    (s, now ++ later)

theorem run_cons (step : State → Message → State × List Publication) (s : State) (m : Message)
    (ms : List Message) : s.run step (m :: ms) =
      (((step s m).1.run step ms).1, (step s m).2 ++ ((step s m).1.run step ms).2) := rfl

theorem handle_eq (s : State) (m : Message) :
    s.handle m = if m.heededIn s.phase then s.serve m else (s, []) := by
  obtain ⟨phase, repository, documents⟩ := s
  cases m with
  | request r => cases phase <;> cases r <;> rfl
  | notification n => cases phase <;> rfl

theorem performAll_keeps (s : State) (order : List Action) :
    ∃ documents, (s.performAll order).1 = { s with documents := documents } := by
  induction order generalizing s with
  | nil => exact ⟨s.documents, rfl⟩
  | cons a order ih =>
    obtain ⟨documents, hrest⟩ := ih (s.perform a).1
    refine ⟨documents, ?_⟩
    rw [performAll_cons, hrest]
    cases a <;> rfl

theorem serve_phase (s : State) (m : Message) : (s.serve m).1.phase = m.phaseAfter s.phase := by
  cases m with
  | request r => cases r <;> rfl
  | notification n =>
    obtain ⟨documents, hkept⟩ := s.performAll_keeps (s.actions n)
    rw [serve, hkept]
    rfl

theorem serve_repository (s : State) (m : Message) :
    (s.serve m).1.repository = m.repositoryAfter s.repository := by
  cases m with
  | request r => cases r <;> rfl
  | notification n =>
    obtain ⟨documents, hkept⟩ := s.performAll_keeps (s.actions n)
    rw [serve, hkept]
    rfl

theorem run_handle (s : State) (ms : List Message) :
    s.run handle ms = s.run serve (Message.heeded s.phase ms) := by
  induction ms generalizing s with
  | nil => rfl
  | cons m ms ih =>
    rw [run_cons, handle_eq, Message.heeded]
    by_cases hm : m.heededIn s.phase
    · simp only [hm, if_true]
      rw [run_cons, ih, serve_phase]
    · simp only [hm]
      exact ih s

end State

/-! The history of a document -/

structure Sent where
  repository : Repository
  version : Int
  text : String

namespace Sent

def lines (sent : Sent) : LineIndex := .ofText sent.text.toList

def analysis (sent : Sent) : Analysis :=
  .ofText Schema.workflow (Workflow.contexts sent.repository) sent.text.toList

def document (sent : Sent) : OpenDocument := ⟨sent.text, sent.version, sent.lines, sent.analysis⟩

def findings (sent : Sent) : List Finding :=
  sent.analysis.diagnostics.map fun d =>
    ⟨⟨sent.lines.position d.span.start, sent.lines.position d.span.stop⟩, d.severity, d.message⟩

end Sent

abbrev Edit := Option Sent

namespace Edit

def document? (edit : Edit) : Option OpenDocument := edit.map Sent.document

def publication (uri : String) : Edit → Publication
  | some sent => ⟨uri, sent.findings, some sent.version⟩
  | none => ⟨uri, [], none⟩

def effect (uri : String) (edit : Edit) : Effect := ⟨edit.document?, edit.publication uri⟩

theorem uri_publication (uri : String) (edit : Edit) : (edit.publication uri).uri = uri := by
  cases edit <;> rfl

end Edit

namespace Message

/-- What a message does to a document, if it is about it. Of several texts the last would count. -/
def edit? (uri : String) (repository : Repository) : Message → Option Edit
  | .notification (.opened other version text) =>
    if other = uri then some (some ⟨repository, version, text⟩) else none
  | .notification (.changed other version texts) =>
    if other = uri then texts.getLast?.map fun text => some ⟨repository, version, text⟩ else none
  | .notification (.closed other) => if other = uri then some none else none
  | _ => none

def edits (uri : String) : Repository → List Message → List Edit
  | _, [] => []
  | repository, m :: ms =>
    (m.edit? uri repository).toList ++ edits uri (m.repositoryAfter repository) ms

end Message

def lastEdit? (uri : String) (ms : List Message) : Option Edit :=
  (Message.edits uri .unknown ms).getLast?

def current? (uri : String) (ms : List Message) : Option Sent := (lastEdit? uri ms).join

def lastPublished? (uri : String) (published : List Publication) : Option Publication :=
  (published.filter (·.uri = uri)).getLast?

/-- A server that has handled these messages has the document of the last edit, has published its
findings, and answers from it. -/
structure Consistent (uri : String) (ms : List Message) (s : State)
    (published : List Publication) : Prop where
  repository : s.repository = ms.foldl Message.repositoryAfter .unknown
  document : s.document? uri = (current? uri ms).map Sent.document
  published : lastPublished? uri published = (lastEdit? uri ms).map (Edit.publication uri)
  hover : ∀ place, s.hover uri place =
    (current? uri ms).bind fun sent => sent.analysis.hover? (sent.lines.offset place)
  completion : ∀ place, s.complete uri place = (current? uri ms).map fun sent =>
    sent.analysis.complete (Workflow.contexts s.repository) (sent.lines.offset place)
  replies : s.phase = .running → ∀ place,
    (s.request (.hover uri place)).2 = .ok (.hover (s.hover uri place)) ∧
    (s.request (.completion uri place)).2 = .ok (.completion (s.complete uri place))
  unchanged : ∀ place,
    (s.request (.hover uri place)).1 = s ∧ (s.request (.completion uri place)).1 = s

namespace State

theorem actions_cases (s : State) {n : Notification} (hone : n.OneText) :
    (s.actions n = [] ∧ ∀ uri, Message.edit? uri s.repository (.notification n) = none) ∨
    ∃ (other : String) (edit : Edit), s.actions n = (edit.effect other).actions other ∧
      ∀ uri, Message.edit? uri s.repository (.notification n) =
        if other = uri then some edit else none := by
  cases n with
  | initialized | saved => exact .inl ⟨rfl, fun _ => rfl⟩
  | opened other version text =>
    exact .inr ⟨other, some ⟨s.repository, version, text⟩, rfl, fun _ => rfl⟩
  | closed other => exact .inr ⟨other, none, rfl, fun _ => rfl⟩
  | changed other version texts =>
    match texts, hone with
    | [], _ => exact .inl ⟨rfl, fun uri => by simp [Message.edit?]⟩
    | [text], _ => exact .inr ⟨other, some ⟨s.repository, version, text⟩, rfl, fun _ => rfl⟩

theorem performAll_effect (s : State) (other : String) (edit : Edit) (uri : String) :
    (s.performAll ((edit.effect other).actions other)).1.document? uri =
      (if other = uri then edit.document? else s.document? uri) ∧
    (s.performAll ((edit.effect other).actions other)).2.filter (·.uri = uri) =
      if other = uri then [edit.publication uri] else [] := by
  have hsent : (edit.publication other).uri = other := edit.uri_publication other
  rw [document?_performAll, published_performAll, Effect.filterMap_sent?_actions]
  by_cases hu : other = uri
  · subst hu
    simp [Edit.effect, hsent]
  · have hput : ((edit.effect other).actions other).filterMap (Action.put? uri) = [] := by
      cases edit <;> simp [Edit.effect, Edit.document?, Effect.actions, Effect.put, Action.put?, hu]
    rw [hput]
    simp [Edit.effect, hsent, hu]

theorem serve_edit (s : State) {m : Message} (hone : m.OneText) (uri : String) :
    (s.serve m).1.document? uri =
      ((m.edit? uri s.repository).map Edit.document?).getD (s.document? uri) ∧
    (s.serve m).2.filter (·.uri = uri) =
      (m.edit? uri s.repository).toList.map (Edit.publication uri) := by
  cases m with
  | request r => cases r <;> exact ⟨rfl, rfl⟩
  | notification n =>
    rw [serve]
    obtain ⟨hnone, hedit⟩ | ⟨other, edit, hactions, hedit⟩ := s.actions_cases hone
    · rw [hnone, hedit]
      exact ⟨rfl, rfl⟩
    · obtain ⟨hdoc, hsent⟩ := s.performAll_effect other edit uri
      rw [hactions, hedit, hdoc, hsent]
      by_cases hu : other = uri <;> simp [hu]

/-- Message after message: the last edit decides about the document, and each edit is published. -/
theorem run_edits (s : State) {ms : List Message} (hone : ∀ m ∈ ms, m.OneText) (uri : String) :
    (s.run serve ms).1.document? uri =
      ((Message.edits uri s.repository ms).getLast?.map Edit.document?).getD (s.document? uri) ∧
    (s.run serve ms).2.filter (·.uri = uri) =
      (Message.edits uri s.repository ms).map (Edit.publication uri) := by
  induction ms generalizing s with
  | nil => exact ⟨rfl, rfl⟩
  | cons m ms ih =>
    obtain ⟨hdoc, hsent⟩ := s.serve_edit (hone m List.mem_cons_self) uri
    obtain ⟨hlater, hpublished⟩ := ih (s.serve m).1 fun n hn => hone n (List.mem_cons_of_mem m hn)
    -- the edits that follow are read with the options that this message leaves
    rw [serve_repository] at hlater hpublished
    rw [run_cons, Message.edits, List.filter_append, hsent, hpublished, hlater, hdoc,
      List.map_append]
    refine ⟨?_, rfl⟩
    cases m.edit? uri s.repository with
    | none => rfl
    | some edit => simp [List.getLast?_cons]

theorem run_repository (s : State) (ms : List Message) :
    (s.run serve ms).1.repository = ms.foldl Message.repositoryAfter s.repository := by
  induction ms generalizing s with
  | nil => rfl
  | cons m ms ih => rw [run_cons, ih, serve_repository, List.foldl_cons]

theorem serve_consistent (uri : String) {ms : List Message} (hone : ∀ m ∈ ms, m.OneText) :
    Consistent uri ms (initial.run serve ms).1 (initial.run serve ms).2 := by
  obtain ⟨hlast, hpublished⟩ := initial.run_edits hone uri
  have hdocument : (initial.run serve ms).1.document? uri =
      (current? uri ms).map Sent.document := by
    have hedit : (initial.run serve ms).1.document? uri =
        ((lastEdit? uri ms).map Edit.document?).getD none := hlast
    rw [hedit, current?]
    cases lastEdit? uri ms <;> rfl
  refine ⟨initial.run_repository ms, hdocument, ?_, fun place => ?_, fun place => ?_, ?_, ?_⟩
  · rw [lastPublished?, hpublished, List.getLast?_map]
    rfl
  · rw [State.hover, hdocument]
    cases current? uri ms <;> rfl
  · rw [State.complete, hdocument]
    cases current? uri ms <;> rfl
  · intro hrun place
    simp only [request, hrun, and_self]
  · intro place
    cases hphase : (initial.run serve ms).1.phase <;> simp only [request, hphase, and_self]

/-- Whatever messages have been handled, the server is consistent with them. A server that refuses
messages out of place is so with those that it has not refused. -/
theorem run_consistent (uri : String) (ms : List Message) (hone : ∀ m ∈ ms, m.OneText) :
    Consistent uri ms (initial.run serve ms).1 (initial.run serve ms).2 ∧
    Consistent uri (Message.heeded .new ms) (initial.run handle ms).1 (initial.run handle ms).2 := by
  have hheeded : ∀ m ∈ Message.heeded .new ms, m.OneText :=
    fun m hm => hone m (Message.mem_of_mem_heeded hm)
  refine ⟨serve_consistent uri hone, ?_⟩
  rw [run_handle]
  exact serve_consistent uri hheeded

/-- `w` is opened too early, opened and changed, while `v` comes and goes; the second
initialization is refused. -/
def morning : List Message :=
  [.notification (.opened "w" 1 "on: push"), .request (.start .null),
    .notification (.opened "w" 2 "on: push"), .notification (.opened "v" 1 "jobs: 1"),
    .notification (.changed "w" 3 ["on: push\njobs: 2"]),
    .request (.start (.arr [.str "owner"])), .notification (.saved "w"),
    .notification (.closed "v"), .request (.hover "w" ⟨0, 0⟩)]

def wrongJobs : Finding := ⟨⟨⟨1, 6⟩, ⟨1, 7⟩⟩, .error, "Expected a mapping"⟩

theorem run_consistent_morning :
    (∀ m ∈ morning, m.OneText) ∧
    (initial.run handle morning).1.document? "w" =
      some (Sent.document ⟨.unknown, 3, "on: push\njobs: 2"⟩) ∧
    lastPublished? "w" (initial.run handle morning).2 = some ⟨"w", [wrongJobs], some 3⟩ ∧
    (initial.run handle morning).1.document? "v" = none ∧
    lastPublished? "v" (initial.run handle morning).2 = some ⟨"v", [], none⟩ := by
  have hone : ∀ m ∈ morning, m.OneText := by
    simp [morning, Message.OneText, Notification.OneText]
  have hfindings : Sent.findings ⟨.unknown, 3, "on: push\njobs: 2"⟩ = [wrongJobs] := by
    decide +kernel
  have hw := (run_consistent "w" morning hone).2
  have hv := (run_consistent "v" morning hone).2
  refine ⟨hone, hw.document, ?_, hv.document, hv.published⟩
  rw [← hfindings]
  exact hw.published

/-! Changes that bring several texts -/

/-- The first text of a change is kept and published, and it makes no difference to anything later
that others came with it. So the document is that of the last text, which the client has, only if
this is the first text again. -/
theorem change_leaves_first (s : State) (uri : String) (version : Int) (first : String)
    (rest : List String) :
    let change := Notification.changed uri version (first :: rest)
    let last := (first :: rest).getLast (List.cons_ne_nil first rest)
    (s.phase = .running → s.notify change = s.serve (.notification change)) ∧
    (s.serve (.notification change)).1.document? uri =
      some (Sent.document ⟨s.repository, version, first⟩) ∧
    (s.serve (.notification change)).2 =
      [⟨uri, Sent.findings ⟨s.repository, version, first⟩, some version⟩] ∧
    (∀ ms, s.run serve (.notification change :: ms) =
      s.run serve (.notification (.changed uri version [first]) :: ms)) ∧
    ((s.serve (.notification change)).1.document? uri =
      some (Sent.document ⟨s.repository, version, last⟩) ↔ first = last) := by
  intro change last
  have hdoc : (s.serve (.notification change)).1.document? uri =
      some (Sent.document ⟨s.repository, version, first⟩) := by
    have heffect := (s.performAll_effect uri (some ⟨s.repository, version, first⟩) uri).1
    rwa [if_pos rfl] at heffect
  refine ⟨fun hrun => if_pos hrun, hdoc, rfl, fun ms => rfl, ?_⟩
  rw [hdoc, Option.some.injEq]
  constructor
  · intro hsame
    exact congrArg OpenDocument.text hsame
  · intro hsame
    rw [← hsame]

theorem change_leaves_first_again :
    (notify ⟨.running, .unknown, []⟩ (.changed "w" 2 ["x", "y", "x"])).1.document? "w" =
      some (Sent.document ⟨.unknown, 2, "x"⟩) := by
  obtain ⟨hnotify, -, -, -, hlast⟩ :=
    change_leaves_first ⟨.running, .unknown, []⟩ "w" 2 "x" ["y", "x"]
  rw [hnotify rfl]
  exact hlast.mpr rfl

theorem last_text_lost :
    ["x", "y"].getLast? = some "y" ∧
    ((notify ⟨.running, .unknown, []⟩ (.changed "w" 2 ["x", "y"])).1.document? "w").map
      OpenDocument.text = some "x" :=
  ⟨rfl, rfl⟩

end State
end WorkflowLint.Server

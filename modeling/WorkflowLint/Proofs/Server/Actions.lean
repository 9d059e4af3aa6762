import WorkflowLint.Server.State

/-! What the actions of a server leave behind: the document under a name, and the publications. -/
namespace WorkflowLint.Server

namespace Action

/-- What an action makes of the document under a name, if it does anything to it. -/
def put? (uri : String) : Action → Option (Option OpenDocument)
  | .store other doc => if other = uri then some (some doc) else none
  | .remove other => if other = uri then some none else none
  | .publish _ => none

def sent? : Action → Option Publication
  | .publish p => some p
  | _ => none

@[simp]
theorem put?_publish (uri : String) (p : Publication) : (publish p).put? uri = none := rfl

@[simp]
theorem sent?_publish (p : Publication) : (publish p).sent? = some p := rfl

end Action

namespace State

theorem document?_removeDocument (s : State) (other uri : String) :
    (s.removeDocument other).document? uri = if other = uri then none else s.document? uri := by
  obtain ⟨phase, repository, documents⟩ := s
  simp only [removeDocument, document?]
  by_cases hu : other = uri
  · simp [hu]
  · induction documents with
    | nil => simp
    | cons entry documents ih =>
      by_cases he : entry.1 = uri
      · simp [he, hu, Ne.symm hu]
      · by_cases ho : entry.1 = other <;> simpa [he, ho, hu] using ih

theorem document?_perform (s : State) (a : Action) (uri : String) :
    (s.perform a).1.document? uri = (a.put? uri).getD (s.document? uri) := by
  cases a with
  | publish p => rfl
  | remove other =>
    rw [perform, document?_removeDocument, Action.put?]
    by_cases hu : other = uri <;> simp [hu]
  | store other doc =>
    by_cases hu : other = uri
    · simp [perform, storeDocument, document?, Action.put?, hu]
    · have hkept := s.document?_removeDocument other uri
      simp only [hu, if_false] at hkept
      simp only [document?] at hkept
      simp [perform, storeDocument, document?, Action.put?, hu, hkept]

theorem performAll_cons (s : State) (a : Action) (rest : List Action) :
    s.performAll (a :: rest) = (((s.perform a).1.performAll rest).1,
      (s.perform a).2 ++ ((s.perform a).1.performAll rest).2) := rfl

theorem document?_performAll (s : State) (order : List Action) (uri : String) :
    (s.performAll order).1.document? uri =
      (order.filterMap (Action.put? uri)).getLast?.getD (s.document? uri) := by
  induction order generalizing s with
  | nil => rfl
  | cons a order ih =>
    rw [performAll_cons, ih, document?_perform, List.filterMap_cons]
    cases a.put? uri with
    | none => rfl
    | some put => simp [List.getLast?_cons]

theorem published_performAll (s : State) (order : List Action) :
    (s.performAll order).2 = order.filterMap Action.sent? := by
  induction order generalizing s with
  | nil => rfl
  | cons a order ih =>
    rw [performAll_cons, ih]
    cases a <;> rfl

def heeded (s : State) (n : Notification) : List Action :=
  if s.phase = .running then s.actions n else []

theorem notify_eq (s : State) (n : Notification) : s.notify n = s.performAll (s.heeded n) := by
  rw [notify, heeded]
  split <;> rfl

theorem heeded_perform (s : State) (a : Action) : (s.perform a).1.heeded = s.heeded := by
  funext n
  cases a <;> rfl

/-! Overflows -/

theorem overflowed_storeDocument (s : State) (uri : String) (doc : OpenDocument) :
    (s.storeDocument uri doc).overflowed =
      (doc.overflowed || (s.removeDocument uri).overflowed) := rfl

theorem overflowed_removeDocument {s : State} (h : s.overflowed = false) (uri : String) :
    (s.removeDocument uri).overflowed = false := by
  rw [overflowed, List.any_eq_false] at h ⊢
  exact fun entry hentry => h entry (List.mem_filter.mp hentry).1

/-- A server that is there ends with a notification exactly if the document that comes with it
overflows. -/
theorem overflowed_notify {s : State} (h : s.overflowed = false) (n : Notification) :
    (s.notify n).1.overflowed = true ↔
      ∃ uri doc, .store uri doc ∈ s.heeded n ∧ doc.overflowed = true := by
  have harrival (uri : String) (version : Int) (text : String) :
      (s.performAll (s.arrival uri version text)).1.overflowed = true ↔
        ∃ other doc, .store other doc ∈ s.arrival uri version text ∧ doc.overflowed = true := by
    have hstored : (s.performAll (s.arrival uri version text)).1 =
        s.storeDocument uri (.ofText s.repository version text) := rfl
    rw [hstored, overflowed_storeDocument, overflowed_removeDocument h, Bool.or_false]
    simp [arrival, and_assoc]
  rw [notify_eq, heeded]
  split
  · cases n with
    | opened uri version text => exact harrival uri version text
    | changed uri version texts =>
      cases texts with
      | nil => simp [actions, performAll, h]
      | cons text _ => exact harrival uri version text
    | closed uri =>
      have hremoved : (s.performAll (s.actions (.closed uri))).1 = s.removeDocument uri := rfl
      rw [hremoved, overflowed_removeDocument h]
      simp [actions]
    | initialized | saved => simp [actions, performAll, h]
  · simp [performAll, h]

end State

/-! Effects -/

structure Effect where
  document : Option OpenDocument
  publication : Publication

namespace Effect

def ofText (s : State) (uri : String) (version : Int) (text : String) : Effect :=
  let doc := OpenDocument.ofText s.repository version text
  ⟨some doc, ⟨uri, doc.findings, some version⟩⟩

def closed (uri : String) : Effect := ⟨none, ⟨uri, [], none⟩⟩

def put (uri : String) (e : Effect) : Action :=
  match e.document with
  | some doc => .store uri doc
  | none => .remove uri

def actions (uri : String) (e : Effect) : List Action := [e.put uri, .publish e.publication]

@[simp]
theorem put?_put (uri : String) (e : Effect) : (e.put uri).put? uri = some e.document := by
  obtain ⟨document, publication⟩ := e
  cases document <;> simp [put, Action.put?]

@[simp]
theorem sent?_put (uri : String) (e : Effect) : (e.put uri).sent? = none := by
  obtain ⟨document, publication⟩ := e
  cases document <;> rfl

@[simp]
theorem filterMap_put?_actions (uri : String) (e : Effect) :
    (e.actions uri).filterMap (Action.put? uri) = [e.document] := by
  simp [actions]

@[simp]
theorem filterMap_sent?_actions (uri : String) (e : Effect) :
    (e.actions uri).filterMap Action.sent? = [e.publication] := by
  simp [actions]

end Effect

namespace Notification

def uri? : Notification → Option String
  | .initialized => none
  | .opened uri _ _ | .changed uri _ _ | .saved uri | .closed uri => some uri

/-- What a notification is to leave, if `choose` says which text of a change counts. -/
def effect? (choose : List String → Option String) (s : State) : Notification → Option Effect
  | .opened uri version text => some (.ofText s uri version text)
  | .changed uri version texts => (choose texts).map (.ofText s uri version)
  | .closed uri => some (.closed uri)
  | .initialized | .saved _ => none

def effects (s : State) (ns : List Notification) : List Effect :=
  ns.filterMap (effect? List.head? s)

def OneText : Notification → Prop
  | .changed _ _ texts => texts.length ≤ 1
  | _ => True

theorem OneText.effect?_eq {n : Notification} (h : n.OneText) (s : State) :
    n.effect? List.getLast? s = n.effect? List.head? s := by
  cases n with
  | changed uri version texts =>
    match texts, h with
    | [], _ => rfl
    | [text], _ => rfl
  | initialized | opened | saved | closed => rfl

theorem actions_eq {n : Notification} {uri : String} (h : n.uri? = some uri) (s : State) :
    s.actions n = ((n.effect? List.head? s).map (Effect.actions uri)).getD [] := by
  cases n with
  | initialized => cases h
  | saved => rfl
  | opened | closed =>
    cases h
    rfl
  | changed other version texts =>
    cases h
    cases texts <;> rfl

end Notification
end WorkflowLint.Server

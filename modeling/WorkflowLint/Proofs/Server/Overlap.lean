import Mathlib.Data.Multiset.MapFold
import Mathlib.Logic.Relation
import WorkflowLint.Proofs.Server.Actions
import WorkflowLint.Proofs.Server.Interleave

/-! Notifications that overlap. Each is handled on its own, and a handler may be overtaken at any
point between looking at the text, keeping the document and publishing what was found. Nobody
compares versions, so what is kept in the end and what was published last can be due to any of the
notifications, and not even to the same one. -/
namespace WorkflowLint.Server

/-- A handler has its notification until the text has been looked at, and then what is left. -/
inductive Handler where
  | waiting (n : Notification)
  | acting (rest : List Action)

def Handler.due (s : State) : Handler → List Action
  | .waiting n => s.heeded n
  | .acting rest => rest

structure Session where
  state : State
  incoming : List Notification
  handlers : Multiset Handler
  published : List Publication

namespace Session

def start (s : State) (ns : List Notification) : Session := ⟨s, ns, 0, []⟩

/-- Notifications are received in order, but any handler may go on at any time. -/
inductive Step : Session → Session → Prop
  | receive {s n ns hs ps} : Step ⟨s, n :: ns, hs, ps⟩ ⟨s, ns, .waiting n ::ₘ hs, ps⟩
  | analyse {s n ns hs ps} :
      Step ⟨s, ns, .waiting n ::ₘ hs, ps⟩ ⟨s, ns, .acting (s.heeded n) ::ₘ hs, ps⟩
  | act {s ns a rest hs ps} :
      Step ⟨s, ns, .acting (a :: rest) ::ₘ hs, ps⟩
        ⟨(s.perform a).1, ns, .acting rest ::ₘ hs, ps ++ (s.perform a).2⟩

def Run : Session → Session → Prop := Relation.ReflTransGen Step

def Idle (x : Session) : Prop := ∀ h ∈ x.handlers, h = .acting []

def Finished (x : Session) : Prop := x.incoming = [] ∧ x.Idle

def due (x : Session) : Multiset (List Action) :=
  x.handlers.map (Handler.due x.state) + (x.incoming : Multiset Notification).map x.state.heeded

theorem due_start (s : State) (ns : List Notification) :
    (start s ns).due = (ns : Multiset Notification).map s.heeded := by
  rw [due, start, Multiset.map_zero, Multiset.zero_add]

theorem Step.heeded_eq {x y : Session} (h : Step x y) : y.state.heeded = x.state.heeded := by
  cases h with
  | receive | analyse => rfl
  | act => exact State.heeded_perform _ _

theorem Run.heeded_eq {x y : Session} (h : Run x y) : y.state.heeded = x.state.heeded := by
  induction h with
  | refl => rfl
  | tail _ hs ih => exact hs.heeded_eq.trans ih

theorem Run.incoming_suffix {x y : Session} (h : Run x y) : y.incoming <:+ x.incoming := by
  induction h with
  | refl => exact List.suffix_refl _
  | tail _ hs ih =>
    cases hs with
    | receive => exact (List.suffix_cons _ _).trans ih
    | analyse | act => exact ih

theorem Step.cases_due {x y : Session} (h : Step x y) :
    (y.state = x.state ∧ y.published = x.published ∧ y.due = x.due) ∨
    ∃ a rest others, x.due = (a :: rest) ::ₘ others ∧ y.due = rest ::ₘ others ∧
      y.state = (x.state.perform a).1 ∧ y.published = x.published ++ (x.state.perform a).2 := by
  cases h with
  | receive =>
    refine .inl ⟨rfl, rfl, ?_⟩
    simp [due, Handler.due, ← Multiset.cons_coe]
  | analyse => exact .inl ⟨rfl, rfl, by simp [due, Handler.due]⟩
  | @act s ns a rest hs ps =>
    have hdue : Handler.due (s.perform a).1 = Handler.due s := by
      funext h
      cases h with
      | waiting n => rw [Handler.due, State.heeded_perform, Handler.due]
      | acting rest => rfl
    refine .inr ⟨a, rest, hs.map (Handler.due s) + (ns : Multiset Notification).map s.heeded,
      ?_, ?_, rfl, rfl⟩
    · simp [due, Handler.due]
    · simp [due, Handler.due, hdue, State.heeded_perform]

theorem Idle.due_eq_nil {x : Session} (h : x.Idle) :
    ∀ l ∈ x.handlers.map (Handler.due x.state), l = [] := by
  intro l hl
  obtain ⟨handler, hh, rfl⟩ := Multiset.mem_map.mp hl
  rw [h handler hh]
  rfl

theorem Finished.due_eq_nil {x : Session} (h : x.Finished) : ∀ l ∈ x.due, l = [] := by
  rw [due, h.1, Multiset.coe_nil, Multiset.map_zero, Multiset.add_zero]
  exact h.2.due_eq_nil

/-- A run that ends has done all that was left, in some order. -/
theorem Run.exists_order {x y : Session} (h : Run x y) (hy : y.Finished) :
    ∃ order, Interleaves x.due order ∧ y.state = (x.state.performAll order).1 ∧
      y.published = x.published ++ (x.state.performAll order).2 := by
  induction h using Relation.ReflTransGen.head_induction_on with
  | refl => exact ⟨[], .done hy.due_eq_nil, rfl, by simp [State.performAll]⟩
  | head hs _ ih =>
    obtain ⟨order, hi, hstate, hpublished⟩ := ih
    obtain ⟨hsame, hpub, hdue⟩ | ⟨a, rest, others, hdue, hleft, hdone, hpub⟩ := hs.cases_due
    · exact ⟨order, hdue ▸ hi, hsame ▸ hstate, by rw [hpublished, hpub, hsame]⟩
    · refine ⟨a :: order, ?_, ?_, ?_⟩
      · rw [hdue]
        exact .step (hleft ▸ hi)
      · rw [State.performAll_cons, hstate, hdone]
      · rw [State.performAll_cons, hpublished, hpub, hdone, List.append_assoc]

theorem run_begin (s : State) (ns : List Notification) (hs : Multiset Handler)
    (ps : List Publication) : Run ⟨s, ns, hs, ps⟩
      ⟨s, [], ((ns : Multiset Notification).map s.heeded).map .acting + hs, ps⟩ := by
  induction ns generalizing hs with
  | nil =>
    rw [Multiset.coe_nil, Multiset.map_zero, Multiset.map_zero, Multiset.zero_add]
    exact .refl
  | cons n ns ih =>
    have hfirst : Run ⟨s, n :: ns, hs, ps⟩ ⟨s, ns, .acting (s.heeded n) ::ₘ hs, ps⟩ :=
      .head .receive (.head .analyse .refl)
    refine hfirst.trans ?_
    rw [← Multiset.cons_coe, Multiset.map_cons, Multiset.map_cons, Multiset.cons_add,
      ← Multiset.add_cons]
    exact ih _

theorem run_order {ls : Multiset (List Action)} {order : List Action} (h : Interleaves ls order)
    (s : State) (ps : List Publication) : ∃ hs, (∀ h ∈ hs, h = Handler.acting []) ∧
      Run ⟨s, [], ls.map .acting, ps⟩
        ⟨(s.performAll order).1, [], hs, ps ++ (s.performAll order).2⟩ := by
  induction h generalizing s ps with
  | @done ls hls =>
    refine ⟨ls.map .acting, fun h hh => ?_, ?_⟩
    · obtain ⟨l, hl, rfl⟩ := Multiset.mem_map.mp hh
      rw [hls l hl]
    · rw [State.performAll, List.append_nil]
      exact .refl
  | @step a rest order ls _ ih =>
    obtain ⟨hs, hidle, hrun⟩ := ih (s.perform a).1 (ps ++ (s.perform a).2)
    have hact : Step ⟨s, [], .acting (a :: rest) ::ₘ ls.map .acting, ps⟩
        ⟨(s.perform a).1, [], .acting rest ::ₘ ls.map .acting, ps ++ (s.perform a).2⟩ := .act
    rw [Multiset.map_cons, List.append_assoc] at hrun
    rw [Multiset.map_cons, State.performAll_cons]
    exact ⟨hs, hidle, .head hact hrun⟩

theorem exists_run {s : State} {ns : List Notification} {order : List Action}
    (h : Interleaves (start s ns).due order) :
    ∃ y, Run (start s ns) y ∧ y.Finished ∧ y.state = (s.performAll order).1 ∧
      y.published = (s.performAll order).2 := by
  rw [due_start] at h
  obtain ⟨hs, hidle, hrun⟩ := run_order h s []
  have hbegin := run_begin s ns 0 []
  rw [Multiset.add_zero] at hbegin
  exact ⟨_, hbegin.trans hrun, ⟨rfl, hidle⟩, rfl, List.nil_append _⟩

theorem run_actions (s : State) (l : List Action) (ns : List Notification) (hs : Multiset Handler)
    (ps : List Publication) : Run ⟨s, ns, .acting l ::ₘ hs, ps⟩
      ⟨(s.performAll l).1, ns, .acting [] ::ₘ hs, ps ++ (s.performAll l).2⟩ := by
  induction l generalizing s ps with
  | nil =>
    rw [State.performAll, List.append_nil]
    exact .refl
  | cons a l ih =>
    have hrest := ih (s.perform a).1 (ps ++ (s.perform a).2)
    rw [List.append_assoc] at hrest
    exact .head .act hrest

theorem start_idle (s : State) (ns : List Notification) : (start s ns).Idle := by
  intro h hh
  cases Multiset.notMem_zero h hh

theorem Idle.exists_next {x : Session} {n : Notification} {ns : List Notification} (h : x.Idle)
    (hn : x.incoming = n :: ns) : ∃ y, Run x y ∧ y.Idle ∧ y.incoming = ns := by
  obtain ⟨s, incoming, hs, ps⟩ := x
  cases hn
  have hrun := run_actions s (s.heeded n) ns hs ps
  refine ⟨_, .head .receive (.head .analyse hrun), fun handler hh => ?_, rfl⟩
  obtain rfl | hh := Multiset.mem_cons.mp hh
  · rfl
  · exact h handler hh

theorem Run.eq_notify {x y : Session} {n : Notification} (h : Run x y) (hy : y.Finished)
    (hx : x.Idle) (hn : x.incoming = [n]) : y.state = (x.state.notify n).1 ∧
      y.published = x.published ++ (x.state.notify n).2 := by
  obtain ⟨order, hi, hstate, hpublished⟩ := h.exists_order hy
  have hdue : x.due = x.state.heeded n ::ₘ x.handlers.map (Handler.due x.state) := by
    rw [due, hn, Multiset.coe_singleton, Multiset.map_singleton, Multiset.add_comm,
      Multiset.singleton_add]
  rw [hdue] at hi
  rw [State.notify_eq, ← hi.eq_of_alone hx.due_eq_nil]
  exact ⟨hstate, hpublished⟩

end Session

/-! What is left in the end -/

theorem Interleaves.exists_ending {uri : String} {e f : Effect} {ls : Multiset (List Action)}
    (he : e.actions uri ∈ ls) (hf : f.actions uri ∈ ls) : ∃ order, Interleaves ls order ∧
      (order.filterMap (Action.put? uri)).getLast? = some e.document ∧
      (order.filterMap Action.sent?).getLast? = some f.publication := by
  obtain ⟨ls, rfl⟩ := Multiset.exists_cons_of_mem he
  obtain hsame | hf := Multiset.mem_cons.mp hf
  · obtain ⟨order, h⟩ := exists_order ls
    refine ⟨order ++ e.actions uri, h.add_last _, ?_, ?_⟩
    · simp
    · rw [← hsame]
      simp
  · -- `f` puts its document before `e` begins, and publishes when `e` has finished
    obtain ⟨ls, rfl⟩ := Multiset.exists_cons_of_mem hf
    obtain ⟨order, h⟩ := exists_order ls
    refine ⟨order ++ ([f.put uri] ++ (e.actions uri ++ [.publish f.publication])), ?_, ?_, ?_⟩
    · rw [Multiset.cons_swap]
      exact (h.add_last _).add_around [f.put uri] [.publish f.publication]
    · simp [List.filterMap_cons]
    · simp

namespace Session
variable {s : State} {ns : List Notification} {uri : String}

theorem heeded_eq {n : Notification} (hrun : s.phase = .running) (hn : n.uri? = some uri) :
    s.heeded n = ((n.effect? List.head? s).map (Effect.actions uri)).getD [] := by
  rw [State.heeded, if_pos hrun, n.actions_eq hn]

def CanLeave (s : State) (ns : List Notification) (uri : String) (doc : Option OpenDocument)
    (last : Option Publication) : Prop :=
  ∃ y, Run (start s ns) y ∧ y.Finished ∧ y.state.document? uri = doc ∧ y.published.getLast? = last

theorem canLeave_iff_order (doc : Option OpenDocument) (last : Option Publication) :
    CanLeave s ns uri doc last ↔ ∃ order, Interleaves (start s ns).due order ∧
      (order.filterMap (Action.put? uri)).getLast?.getD (s.document? uri) = doc ∧
      (order.filterMap Action.sent?).getLast? = last := by
  constructor
  · rintro ⟨y, hy, hfinished, hdoc, hlast⟩
    obtain ⟨order, h, hstate, hpublished⟩ := hy.exists_order hfinished
    rw [hstate, State.document?_performAll] at hdoc
    rw [hpublished, State.published_performAll] at hlast
    exact ⟨order, h, hdoc, hlast⟩
  · rintro ⟨order, h, hdoc, hlast⟩
    obtain ⟨y, hy, hfinished, hstate, hpublished⟩ := exists_run h
    rw [← State.document?_performAll, ← hstate] at hdoc
    rw [← s.published_performAll, ← hpublished] at hlast
    exact ⟨y, hy, hfinished, hdoc, hlast⟩

section
variable (hrun : s.phase = .running) (huri : ∀ n ∈ ns, n.uri? = some uri)
include hrun huri

theorem actions_mem_due {e : Effect} (he : e ∈ Notification.effects s ns) :
    e.actions uri ∈ (start s ns).due := by
  obtain ⟨n, hn, heffect⟩ := List.mem_filterMap.mp he
  rw [due_start]
  refine Multiset.mem_map.mpr ⟨n, Multiset.mem_coe.mpr hn, ?_⟩
  rw [heeded_eq hrun (huri n hn), heffect]
  rfl

theorem mem_due_iff {a : Action} :
    (∃ l ∈ (start s ns).due, a ∈ l) ↔ ∃ e ∈ Notification.effects s ns, a ∈ e.actions uri := by
  constructor
  · rintro ⟨l, hl, ha⟩
    rw [due_start] at hl
    obtain ⟨n, hn, rfl⟩ := Multiset.mem_map.mp hl
    have hn := Multiset.mem_coe.mp hn
    rw [heeded_eq hrun (huri n hn)] at ha
    cases heffect : n.effect? List.head? s with
    | none =>
      rw [heffect] at ha
      cases ha
    | some e =>
      rw [heffect] at ha
      exact ⟨e, List.mem_filterMap.mpr ⟨n, hn, heffect⟩, ha⟩
  · rintro ⟨e, he, ha⟩
    exact ⟨e.actions uri, actions_mem_due hrun huri he, ha⟩

theorem order_eq_nil (hnone : Notification.effects s ns = []) {order : List Action}
    (h : Interleaves (start s ns).due order) : order = [] := by
  refine List.eq_nil_iff_forall_not_mem.mpr fun a ha => ?_
  obtain ⟨e, he, -⟩ := (mem_due_iff hrun huri).mp (h.mem_iff.mp ha)
  rw [hnone] at he
  cases he

theorem mem_filterMap_iff {β : Type} {found? : Action → Option β} {left : Effect → β}
    (hleft : ∀ e : Effect, (e.actions uri).filterMap found? = [left e])
    {order : List Action} (h : Interleaves (start s ns).due order) {x : β} :
    x ∈ order.filterMap found? ↔ ∃ e ∈ Notification.effects s ns, x = left e := by
  calc x ∈ order.filterMap found?
    _ ↔ ∃ a, (∃ l ∈ (start s ns).due, a ∈ l) ∧ found? a = some x := by
      simp only [List.mem_filterMap, h.mem_iff]
    _ ↔ ∃ e ∈ Notification.effects s ns, x ∈ (e.actions uri).filterMap found? := by
      simp only [mem_due_iff hrun huri, List.mem_filterMap]
      constructor
      · rintro ⟨a, ⟨e, he, ha⟩, hfound⟩
        exact ⟨e, he, a, ha, hfound⟩
      · rintro ⟨e, he, a, ha, hfound⟩
        exact ⟨a, ⟨e, he, ha⟩, hfound⟩
    _ ↔ ∃ e ∈ Notification.effects s ns, x = left e := by
      simp only [hleft, List.mem_singleton]

theorem getLast?_filterMap {β : Type} {found? : Action → Option β} {left : Effect → β}
    (hleft : ∀ e : Effect, (e.actions uri).filterMap found? = [left e])
    {order : List Action} (h : Interleaves (start s ns).due order) {e : Effect}
    (he : e ∈ Notification.effects s ns) :
    ∃ f ∈ Notification.effects s ns, (order.filterMap found?).getLast? = some (left f) := by
  have hmem := (mem_filterMap_iff hrun huri hleft h).mpr ⟨e, he, rfl⟩
  have hlast := List.getLast?_eq_some_getLast (List.ne_nil_of_mem hmem)
  obtain ⟨f, hf, heq⟩ := (mem_filterMap_iff hrun huri hleft h).mp (List.mem_of_getLast? hlast)
  exact ⟨f, hf, hlast.trans (congrArg some heq)⟩

theorem canLeave_iff (doc : Option OpenDocument) (last : Option Publication) :
    CanLeave s ns uri doc last ↔
      (Notification.effects s ns = [] ∧ doc = s.document? uri ∧ last = none) ∨
      ∃ e ∈ Notification.effects s ns, ∃ f ∈ Notification.effects s ns,
        doc = e.document ∧ last = some f.publication := by
  rw [canLeave_iff_order]
  constructor
  · rintro ⟨order, h, rfl, rfl⟩
    by_cases hnone : Notification.effects s ns = []
    · rw [order_eq_nil hrun huri hnone h]
      exact .inl ⟨hnone, rfl, rfl⟩
    · obtain ⟨g, hg⟩ := List.exists_mem_of_ne_nil _ hnone
      obtain ⟨e, he, hput⟩ :=
        getLast?_filterMap hrun huri (Effect.filterMap_put?_actions uri) h hg
      obtain ⟨f, hf, hsent⟩ :=
        getLast?_filterMap hrun huri (Effect.filterMap_sent?_actions uri) h hg
      exact .inr ⟨e, he, f, hf, by rw [hput, Option.getD_some], hsent⟩
  · rintro (⟨hnone, rfl, rfl⟩ | ⟨e, he, f, hf, rfl, rfl⟩)
    · obtain ⟨order, h⟩ := Interleaves.exists_order (start s ns).due
      obtain rfl := order_eq_nil hrun huri hnone h
      exact ⟨[], h, rfl, rfl⟩
    · obtain ⟨order, h, hput, hsent⟩ :=
        Interleaves.exists_ending (actions_mem_due hrun huri he) (actions_mem_due hrun huri hf)
      exact ⟨order, h, by rw [hput, Option.getD_some], hsent⟩

end

/-- What remains of notifications about one document can be due to any of them, and what was
published last to any other. A notification with one text that comes when all before it have been
handled does leave its own document, and its own findings are the last. -/
theorem overlap_leaves (hrun : s.phase = .running) (huri : ∀ n ∈ ns, n.uri? = some uri) :
    (∀ doc last, CanLeave s ns uri doc last ↔
      (Notification.effects s ns = [] ∧ doc = s.document? uri ∧ last = none) ∨
      ∃ e ∈ Notification.effects s ns, ∃ f ∈ Notification.effects s ns,
        doc = e.document ∧ last = some f.publication) ∧
    ∀ x y n e, Run (start s ns) x → x.Idle → x.incoming = [n] → n.OneText →
      n.effect? List.getLast? s = some e → Run x y → y.Finished →
      y.state.document? uri = e.document ∧ y.published.getLast? = some e.publication := by
  refine ⟨canLeave_iff hrun huri, fun x y n e hx hidle hn htext he hy hfinished => ?_⟩
  have hmem : n ∈ ns := hx.incoming_suffix.mem (hn ▸ List.mem_singleton_self n)
  have hactions : x.state.heeded n = e.actions uri := by
    rw [hx.heeded_eq, start, heeded_eq hrun (huri n hmem), ← htext.effect?_eq, he]
    rfl
  obtain ⟨hstate, hpublished⟩ := hy.eq_notify hfinished hidle hn
  rw [State.notify_eq, hactions] at hstate hpublished
  constructor
  · rw [hstate, State.document?_performAll, Effect.filterMap_put?_actions]
    rfl
  · rw [hpublished, State.published_performAll, Effect.filterMap_sent?_actions]
    simp

theorem overlap_leaves_both :
    (∀ n ∈ [Notification.opened "w" 1 "x", .changed "w" 2 ["y"]], n.uri? = some "w") ∧
    CanLeave ⟨.running, .unknown, []⟩ [.opened "w" 1 "x", .changed "w" 2 ["y"]] "w"
      (some (.ofText .unknown 1 "x"))
      (some ⟨"w", (OpenDocument.ofText .unknown 2 "y").findings, some 2⟩) ∧
    ∃ x y, Run (start ⟨.running, .unknown, []⟩ [.opened "w" 1 "x", .changed "w" 2 ["y"]]) x ∧
      x.Idle ∧ x.incoming = [.changed "w" 2 ["y"]] ∧ Run x y ∧ y.Finished ∧
      y.state.document? "w" = some (.ofText .unknown 2 "y") := by
  have huri : ∀ n ∈ [Notification.opened "w" 1 "x", .changed "w" 2 ["y"]],
      n.uri? = some "w" := by simp [Notification.uri?]
  obtain ⟨hleft, halone⟩ := overlap_leaves (s := ⟨.running, .unknown, []⟩) rfl huri
  refine ⟨huri, (hleft _ _).mpr (.inr ?_), ?_⟩
  · exact ⟨_, List.mem_cons_self, _, List.mem_cons_of_mem _ List.mem_cons_self, rfl, rfl⟩
  · obtain ⟨x, hx, hidle, hin⟩ := (start_idle ⟨.running, .unknown, []⟩
      [.opened "w" 1 "x", .changed "w" 2 ["y"]]).exists_next rfl
    obtain ⟨y, hy, hend, hempty⟩ := hidle.exists_next hin
    have hkept := halone x y _ _ hx hidle hin (le_refl 1) rfl hy ⟨hempty, hend⟩
    exact ⟨x, y, hx, hidle, hin, hy, ⟨hempty, hend⟩, hkept.1⟩

/-- An older text can be what is kept and published of last, when a newer one has come or the
document has been closed; and a change with two texts leaves the first. -/
theorem older_text_remains :
    (∃ doc p, CanLeave ⟨.running, .unknown, []⟩ [.opened "w" 1 "x", .changed "w" 2 ["y"]] "w"
      (some doc) (some p) ∧ doc.text = "x" ∧ doc.version = 1 ∧ p.version = some 1) ∧
    (∃ doc p, CanLeave ⟨.running, .unknown, []⟩ [.opened "w" 1 "x", .closed "w"] "w"
      (some doc) (some p) ∧ doc.text = "x" ∧ doc.version = 1 ∧ p.version = some 1) ∧
    (((State.notify ⟨.running, .unknown, []⟩ (.changed "w" 2 ["y", "z"])).1.document? "w").map
      OpenDocument.text = some "y") := by
  have hleft (n : Notification) (hn : n.uri? = some "w") : CanLeave ⟨.running, .unknown, []⟩
      [.opened "w" 1 "x", n] "w" (some (.ofText .unknown 1 "x"))
      (some ⟨"w", (OpenDocument.ofText .unknown 1 "x").findings, some 1⟩) := by
    refine (canLeave_iff rfl ?_ _ _).mpr (.inr ?_)
    · exact List.forall_mem_cons.mpr ⟨rfl, List.forall_mem_singleton.mpr hn⟩
    · exact ⟨_, List.mem_cons_self, _, List.mem_cons_self, rfl, rfl⟩
  exact ⟨⟨_, _, hleft _ rfl, rfl, rfl, rfl⟩, ⟨_, _, hleft _ rfl, rfl, rfl, rfl⟩, rfl⟩

end Session
end WorkflowLint.Server

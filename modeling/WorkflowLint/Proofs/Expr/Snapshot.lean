import WorkflowLint.Expr.Eval

/-! Contexts that are fetched ahead. An expression asks for no other contexts than those that it
names, so a snapshot of these answers it as well as the provider does. -/
namespace WorkflowLint.Expr

def Resolver.AgreeOn (names : List String) (r s : Resolver) : Prop :=
  ∀ name ∈ names, r name = s name

theorem Resolver.agreeOn_append {xs ys : List String} {r s : Resolver} :
    AgreeOn (xs ++ ys) r s ↔ AgreeOn xs r s ∧ AgreeOn ys r s :=
  List.forall_mem_append

/-! What evaluation asks for -/

theorem mem_contextNames_of_root {env : Env} {name : String} :
    ∀ e : Expr, (access env e).root = .context name → name ∈ contextNames e
  | .context _ own, h => by
    rw [access] at h
    cases h
    simp [contextNames]
  | .property _ target _, h => by
    rw [access] at h
    have htarget := mem_contextNames_of_root target h
    simpa [contextNames] using htarget
  | .index _ target i, h => by
    rw [access] at h
    have htarget := mem_contextNames_of_root target h
    simp [contextNames, htarget]
  | .literal _ _, h | .call _ _ _, h | .apply _ _ _, h | .binary _ _ _ _, h | .not _ _, h => by
    rw [access] at h
    cases h

variable {r s : Resolver} (fs : Functions)

theorem Access.finish_congr (span : Span) (a : Access)
    (h : ∀ name, a.root = .context name → r name = s name) :
    a.finish ⟨r, fs⟩ span = a.finish ⟨s, fs⟩ span := by
  obtain ⟨root, steps⟩ := a
  cases steps with
  | error err => rfl
  | ok steps =>
    obtain name | (err | v | _) := root
    · have hname : r name = s name := h name rfl
      simp only [finish, lookUp, hname]
    · rfl
    · rfl
    · rfl

theorem eval_congr_of_access (e : Expr) (h : Resolver.AgreeOn (contextNames e) r s)
    (ha : access ⟨r, fs⟩ e = access ⟨s, fs⟩ e) : eval ⟨r, fs⟩ e = eval ⟨s, fs⟩ e := by
  have hroot (name : String) (hr : (access ⟨s, fs⟩ e).root = .context name) : r name = s name :=
    h name (mem_contextNames_of_root e hr)
  rw [eval, eval, ha]
  exact Access.finish_congr fs e.span _ hroot

-- One induction over the tree, with the arguments of a call as its second part. What is named in
-- a part is named in the whole, so the agreement goes down to the parts.
mutual

theorem access_congr :
    ∀ e : Expr, Resolver.AgreeOn (contextNames e) r s → access ⟨r, fs⟩ e = access ⟨s, fs⟩ e
  | .literal _ _, _ => by rw [access, access]
  | .context _ _, _ => by rw [access, access]
  | .property _ target _, h => by
    rw [contextNames] at h
    rw [access, access, access_congr target h]
  | .index _ target i, h => by
    rw [contextNames, Resolver.agreeOn_append] at h
    have hi := eval_congr_of_access fs i h.2 (access_congr i h.2)
    rw [access_index, access_index, access_congr target h.1, hi]
  | .call span name args, h => by
    rw [contextNames] at h
    rw [access_call, access_call, evalAll_congr args h]
    rfl
  | .apply _ _ args, h => by
    rw [contextNames, Resolver.agreeOn_append] at h
    rw [access_apply, access_apply, evalAll_congr args h.2]
  | .binary _ _ left right, h => by
    rw [contextNames, Resolver.agreeOn_append] at h
    have hl := eval_congr_of_access fs left h.1 (access_congr left h.1)
    have hr := eval_congr_of_access fs right h.2 (access_congr right h.2)
    rw [access_binary, access_binary, hl, hr]
  | .not _ operand, h => by
    rw [contextNames] at h
    have ho := eval_congr_of_access fs operand h (access_congr operand h)
    rw [access_not, access_not, ho]

theorem evalAll_congr :
    ∀ es : List Expr, Resolver.AgreeOn (contextNamesAll es) r s →
      evalAll ⟨r, fs⟩ es = evalAll ⟨s, fs⟩ es
  | [], _ => by rw [evalAll, evalAll]
  | e :: es, h => by
    rw [contextNamesAll, Resolver.agreeOn_append] at h
    have he := eval_congr_of_access fs e h.1 (access_congr e h.1)
    rw [evalAll_cons, evalAll_cons, he, evalAll_congr es h.2]

end

theorem eval_congr (e : Expr) (h : Resolver.AgreeOn (contextNames e) r s) :
    eval ⟨r, fs⟩ e = eval ⟨s, fs⟩ e :=
  eval_congr_of_access fs e h (access_congr fs e h)

/-! What a snapshot holds -/

namespace Snapshot
variable {provider : ContextProvider}

def Faithful (provider : ContextProvider) (snapshot : Snapshot) : Prop :=
  ∀ entry ∈ snapshot.contexts, entry.2 = provider entry.1

def Holds (snapshot : Snapshot) (name : String) : Prop :=
  ∃ entry ∈ snapshot.contexts, entry.1 = name

theorem Faithful.add {snapshot : Snapshot} (h : snapshot.Faithful provider) (name : String) :
    (snapshot.add provider name).Faithful provider := by
  unfold Snapshot.add
  split
  · exact h
  · intro entry he
    obtain he | he := List.mem_append.mp he
    · exact h entry he
    · cases List.mem_singleton.mp he
      rfl

theorem holds_add_self (snapshot : Snapshot) (name : String) :
    (snapshot.add provider name).Holds name := by
  unfold Snapshot.add
  split
  · next hany =>
    obtain ⟨entry, he, hname⟩ := List.any_eq_true.mp hany
    exact ⟨entry, he, beq_iff_eq.mp hname⟩
  · exact ⟨(name, provider name), by simp, rfl⟩

theorem Holds.add {snapshot : Snapshot} {name : String} (h : snapshot.Holds name)
    (other : String) : (snapshot.add provider other).Holds name := by
  obtain ⟨entry, he, rfl⟩ := h
  unfold Snapshot.add
  split
  · exact ⟨entry, he, rfl⟩
  · exact ⟨entry, List.mem_append_left _ he, rfl⟩

theorem faithful_foldl (names : List String) {snapshot : Snapshot}
    (h : snapshot.Faithful provider) : (names.foldl (add provider) snapshot).Faithful provider := by
  induction names generalizing snapshot with
  | nil => exact h
  | cons name names ih => exact ih (h.add name)

theorem Holds.foldl (names : List String) {snapshot : Snapshot} {name : String}
    (h : snapshot.Holds name) : (names.foldl (Snapshot.add provider) snapshot).Holds name := by
  induction names generalizing snapshot with
  | nil => exact h
  | cons other names ih => exact ih (h.add other)

theorem holds_foldl_of_mem {names : List String} {name : String} (hn : name ∈ names)
    (snapshot : Snapshot) : (names.foldl (add provider) snapshot).Holds name := by
  induction names generalizing snapshot with
  | nil => cases hn
  | cons other names ih =>
    obtain rfl | hn := List.mem_cons.mp hn
    · exact (holds_add_self snapshot name).foldl names
    · exact ih hn (snapshot.add provider other)

theorem resolver_of_holds {snapshot : Snapshot} (hf : snapshot.Faithful provider) {name : String}
    (hn : snapshot.Holds name) : snapshot.resolver name = Resolver.ofProvider provider name := by
  obtain ⟨entry, he, hname⟩ := hn
  cases hfind : snapshot.contexts.find? (·.1 == name) with
  | none =>
    have hnone := List.find?_eq_none.mp hfind entry he
    exact absurd (beq_iff_eq.mpr hname) hnone
  | some found =>
    obtain ⟨key, content⟩ := found
    have hkey : key = name := by simpa using List.find?_some hfind
    have hcontent : content = provider key := hf _ (List.mem_of_find?_eq_some hfind)
    funext path
    simp only [resolver, Resolver.ofProvider, hfind, hcontent, hkey]
    cases provider name <;> rfl

theorem agreeOn_capture (provider : ContextProvider) (e : Expr) :
    Resolver.AgreeOn (contextNames e) (capture provider e).resolver
      (Resolver.ofProvider provider) := by
  intro name hn
  have hf : (capture provider e).Faithful provider :=
    faithful_foldl (contextNames e) fun entry he => by cases he
  exact resolver_of_holds hf (holds_foldl_of_mem hn ⟨[]⟩)

end Snapshot

/-- An expression has the same value, or the same error at the same place, with the contexts that
were fetched for it as with the provider itself. -/
theorem eval_capture (provider : ContextProvider) (fs : Functions) (e : Expr) :
    eval ⟨(Snapshot.capture provider e).resolver, fs⟩ e =
      eval ⟨Resolver.ofProvider provider, fs⟩ e :=
  eval_congr fs e (Snapshot.agreeOn_capture provider e)

end WorkflowLint.Expr

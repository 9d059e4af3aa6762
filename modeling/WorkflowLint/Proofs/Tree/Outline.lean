import WorkflowLint.Tree.Outline
import Mathlib.Data.List.Pairwise

/-! An outline keeps the order of the concrete tree that it was made from: what was left out leaves
nothing behind, and what was filled in has no width. -/
namespace WorkflowLint

theorem Span.point_inside {s : Span} {offset : Nat} (hstart : s.start ≤ offset)
    (hstop : offset ≤ s.stop) : (point offset).Inside s :=
  ⟨hstart, Nat.le_refl _, hstop⟩

namespace Yaml.Concrete

/-- The children of a node are inside of it, one behind the other, and the key of a pair is before
its value. -/
structure InOrder (kind : Kind) (bytes : Span) (children : List Concrete) : Prop where
  forward : bytes.start ≤ bytes.stop
  inside : ∀ c ∈ children, c.bytes.Inside bytes
  apart : children.Pairwise fun a b => a.bytes.stop ≤ b.bytes.start
  key_first : kind = .pair → ∀ key ∈ children.find? (·.role = .key),
    ∀ value ∈ children.find? (·.role = .value), key.bytes.stop ≤ value.bytes.start

inductive Sound : Concrete → Prop
  | node {kind : Kind} {role : Role} {bytes : Span} {children : List Concrete} :
      InOrder kind bytes children → (∀ c ∈ children, Sound c) →
      Sound (.node kind role bytes children)

instance {kind : Kind} {bytes : Span} {children : List Concrete} :
    Decidable (InOrder kind bytes children) :=
  decidable_of_iff (bytes.start ≤ bytes.stop ∧
      (∀ c ∈ children, bytes.start ≤ c.bytes.start ∧ c.bytes.start ≤ c.bytes.stop ∧
        c.bytes.stop ≤ bytes.stop) ∧
      children.Pairwise (fun a b => a.bytes.stop ≤ b.bytes.start) ∧
      (kind = .pair → ∀ key ∈ children.find? (·.role = .key),
        ∀ value ∈ children.find? (·.role = .value), key.bytes.stop ≤ value.bytes.start))
    ⟨fun ⟨hle, hin, hapart, hkey⟩ =>
        ⟨hle, fun c hc => ⟨(hin c hc).1, (hin c hc).2.1, (hin c hc).2.2⟩, hapart, hkey⟩,
      fun h => ⟨h.forward, fun c hc => ⟨(h.inside c hc).start, (h.inside c hc).le,
        (h.inside c hc).stop⟩, h.apart, h.key_first⟩⟩

theorem sound_iff {kind : Kind} {role : Role} {bytes : Span} {children : List Concrete} :
    Sound (.node kind role bytes children) ↔
      InOrder kind bytes children ∧ ∀ c ∈ children, c.Sound :=
  ⟨fun ⟨horder, hsound⟩ => ⟨horder, hsound⟩, fun ⟨horder, hsound⟩ => .node horder hsound⟩

mutual

def decideSound : (c : Concrete) → Decidable c.Sound
  | .node kind _ bytes children =>
    have := decideAllSound children
    decidable_of_iff (InOrder kind bytes children ∧ ∀ c ∈ children, c.Sound) sound_iff.symm

def decideAllSound : (cs : List Concrete) → Decidable (∀ c ∈ cs, c.Sound)
  | [] => isTrue (List.forall_mem_nil _)
  | c :: rest =>
    have := decideSound c
    have := decideAllSound rest
    decidable_of_iff (c.Sound ∧ ∀ c ∈ rest, c.Sound) List.forall_mem_cons.symm

end

instance {c : Concrete} : Decidable c.Sound := decideSound c

theorem Sound.forward {c : Concrete} (h : c.Sound) : c.bytes.start ≤ c.bytes.stop := by
  obtain ⟨horder, _⟩ := h
  exact horder.forward

end Yaml.Concrete

namespace Tree.Outline
open Yaml (Concrete)

def parts : Outline → List Outline
  | .nothing _ | .scalar .. => []
  | .sequence items _ => items
  | .map pairs _ => pairs.flatMap fun (k, v) => [k, v]

inductive Ordered : Outline → Prop
  | intro {o : Outline} :
      o.bytes.start ≤ o.bytes.stop → (∀ p ∈ o.parts, p.bytes.Inside o.bytes) →
      o.parts.Pairwise (fun a b => a.bytes.stop ≤ b.bytes.start) → (∀ p ∈ o.parts, Ordered p) →
      Ordered o

structure Fits (place : Span) (o : Outline) : Prop where
  ordered : o.Ordered
  inside : o.bytes.Inside place

/-- Outlines one behind the other, each of them inside of one of the nodes. -/
structure Row (cs : List Concrete) (os : List Outline) : Prop where
  fits : ∀ o ∈ os, ∃ c ∈ cs, Fits c.bytes o
  apart : os.Pairwise fun a b => a.bytes.stop ≤ b.bytes.start

theorem ordered_of_parts_nil {o : Outline} (hle : o.bytes.start ≤ o.bytes.stop)
    (hparts : o.parts = []) : o.Ordered :=
  .intro hle (by simp [hparts]) (by simp [hparts]) (by simp [hparts])

theorem Fits.mono {a b : Span} {o : Outline} (h : Fits a o) (hab : a.Inside b) : Fits b o :=
  ⟨h.ordered, h.inside.trans hab⟩

theorem fits_nothing {place : Span} {byte : Nat} (hstart : place.start ≤ byte)
    (hstop : byte ≤ place.stop) : Fits place (.nothing byte) :=
  ⟨ordered_of_parts_nil (Nat.le_refl _) rfl, Span.point_inside hstart hstop⟩

theorem fits_scalar {bytes : Span} (h : bytes.start ≤ bytes.stop) (style : Yaml.Style) :
    Fits bytes (.scalar style bytes) :=
  ⟨ordered_of_parts_nil h rfl, .refl h⟩

namespace Row

theorem nil (cs : List Concrete) : Row cs [] := ⟨by simp, .nil⟩

theorem single {c : Concrete} {o : Outline} (h : Fits c.bytes o) : Row [c] [o] :=
  ⟨by simpa using h, List.pairwise_singleton _ _⟩

theorem pair {c : Concrete} {k v : Outline} (hk : Fits c.bytes k) (hv : Fits c.bytes v)
    (hkv : k.bytes.stop ≤ v.bytes.start) : Row [c] [k, v] :=
  ⟨by simp [hk, hv], List.pairwise_pair.mpr hkv⟩

theorem skip {c : Concrete} {cs : List Concrete} {os : List Outline} (h : Row cs os) :
    Row (c :: cs) os := by
  refine ⟨fun o ho => ?_, h.apart⟩
  obtain ⟨c', hc', hfits⟩ := h.fits o ho
  exact ⟨c', List.mem_cons_of_mem c hc', hfits⟩

theorem append {c : Concrete} {cs : List Concrete} {os os' : List Outline}
    (hc : ∀ c' ∈ cs, c.bytes.stop ≤ c'.bytes.start) (h : Row [c] os) (h' : Row cs os') :
    Row (c :: cs) (os ++ os') := by
  have hin : ∀ o ∈ os, Fits c.bytes o := by simpa using h.fits
  refine ⟨fun o ho => ?_, List.pairwise_append.mpr ⟨h.apart, h'.apart, fun a ha b hb => ?_⟩⟩
  · obtain ho | ho := List.mem_append.mp ho
    · exact ⟨c, List.mem_cons_self, hin o ho⟩
    · exact h'.skip.fits o ho
  · obtain ⟨c', hc', hfits⟩ := h'.fits b hb
    calc a.bytes.stop ≤ c.bytes.stop := (hin a ha).inside.stop
      _ ≤ c'.bytes.start := hc c' hc'
      _ ≤ b.bytes.start := hfits.inside.start

theorem fits_whole {cs : List Concrete} {o : Outline} (hle : o.bytes.start ≤ o.bytes.stop)
    (hin : ∀ c ∈ cs, c.bytes.Inside o.bytes) (h : Row cs o.parts) : Fits o.bytes o := by
  refine ⟨.intro hle (fun p hp => ?_) h.apart (fun p hp => ?_), .refl hle⟩
  · obtain ⟨c, hc, hfits⟩ := h.fits p hp
    exact hfits.inside.trans (hin c hc)
  · obtain ⟨c, _, hfits⟩ := h.fits p hp
    exact hfits.ordered

end Row

theorem paired_row {c : Concrete} {stop : Nat} {key value : Option Outline}
    (hkey : ∀ k ∈ key, Fits c.bytes k ∧ k.bytes.stop ≤ stop ∧ Fits c.bytes (.nothing stop))
    (hvalue : ∀ k ∈ key, ∀ v ∈ value, Fits c.bytes v ∧ k.bytes.stop ≤ v.bytes.start) :
    Row [c] ((paired stop key value).toList.flatMap fun (k, v) => [k, v]) := by
  cases key with
  | none => exact .nil [c]
  | some k =>
    obtain ⟨hk, hle, hnothing⟩ := hkey k rfl
    cases value with
    | none => exact .pair hk hnothing hle
    | some v =>
      obtain ⟨hv, hkv⟩ := hvalue k rfl v rfl
      exact .pair hk hv hkv

theorem parts_row {role : Concrete.Role} {bytes : Span} {cs : List Concrete}
    (horder : Concrete.InOrder .pair bytes cs)
    (hparts : ∀ role o, part? role cs = some o → ∃ c ∈ cs.find? (·.role = role), Fits c.bytes o) :
    Row [.node .pair role bytes cs]
      ((pairOf? (.node .pair role bytes cs)).toList.flatMap fun (k, v) => [k, v]) := by
  have hin {c : Concrete} {role : Concrete.Role} (hc : c ∈ cs.find? (·.role = role)) :
      c.bytes.Inside bytes := horder.inside c (List.mem_of_find?_eq_some hc)
  refine paired_row (c := .node .pair role bytes cs) (fun k hk => ?_) (fun k hk v hv => ?_)
  · obtain ⟨c, hc, hfits⟩ := hparts _ k hk
    have hstop : keyStop cs bytes = c.bytes.stop := by
      rw [keyStop, Option.mem_def.mp hc]
      rfl
    have hcin := hin hc
    rw [hstop]
    exact ⟨hfits.mono hcin, hfits.inside.stop,
      fits_nothing (Nat.le_trans hcin.start hcin.le) hcin.stop⟩
  · obtain ⟨c, hc, hfits⟩ := hparts _ k hk
    obtain ⟨c', hc', hfits'⟩ := hparts _ v hv
    refine ⟨hfits'.mono (hin hc'), ?_⟩
    calc k.bytes.stop ≤ c.bytes.stop := hfits.inside.stop
      _ ≤ c'.bytes.start := horder.key_first rfl c hc c' hc'
      _ ≤ v.bytes.start := hfits'.inside.start

mutual

/-- The outline of a concrete tree in order is in order, in the place of the tree. -/
theorem ofConcrete?_fits {o : Outline} :
    (c : Concrete) → c.Sound → ofConcrete? c = some o → Fits c.bytes o
  | .node kind role bytes children, .node horder hsound, ho => by
    cases kind with
    | stream | document | error =>
      obtain ⟨c, hc, hfits⟩ := first?_fits children hsound ho
      exact hfits.mono (horder.inside c hc)
    | blockNode | flowNode =>
      obtain rfl | ⟨c, hc, hfits⟩ := content?_fits children hsound ho
      · exact fits_nothing horder.forward (Nat.le_refl _)
      · exact hfits.mono (horder.inside c hc)
    | mapping =>
      obtain rfl := Option.some.inj ho
      exact Row.fits_whole (o := .map (entries children) bytes) horder.forward horder.inside
        (entries_row children hsound horder.apart)
    | pair =>
      obtain rfl := Option.some.inj ho
      have hself : ∀ c ∈ [Concrete.node .pair role bytes children], c.bytes.Inside bytes := by
        rintro c (_ | ⟨_, ⟨⟩⟩)
        exact .refl horder.forward
      exact Row.fits_whole (o := .map _ bytes) horder.forward hself
        (parts_row horder fun _ _ => part?_fits children hsound)
    | sequence =>
      obtain rfl := Option.some.inj ho
      exact Row.fits_whole (o := .sequence (items children) bytes) horder.forward horder.inside
        (items_row children hsound horder.apart)
    | scalar style =>
      obtain rfl := Option.some.inj ho
      exact fits_scalar horder.forward style
    | item | anchor | tag | comment | other => cases ho
    | _ =>
      obtain rfl := Option.some.inj ho
      exact fits_scalar horder.forward .plain

theorem first?_fits {o : Outline} :
    (cs : List Concrete) → (∀ c ∈ cs, c.Sound) → first? cs = some o → ∃ c ∈ cs, Fits c.bytes o
  | [], _, ho => by cases ho
  | c :: rest, hsound, ho => by
    rw [List.forall_mem_cons] at hsound
    obtain ho | ⟨-, ho⟩ := Option.or_eq_some_iff.mp ho
    · exact ⟨c, List.mem_cons_self, ofConcrete?_fits c hsound.1 ho⟩
    · obtain ⟨c', hc', hfits⟩ := first?_fits rest hsound.2 ho
      exact ⟨c', List.mem_cons_of_mem c hc', hfits⟩

theorem content?_fits {o : Outline} {stop : Nat} :
    (cs : List Concrete) → (∀ c ∈ cs, c.Sound) → content? stop cs = some o →
      o = .nothing stop ∨ ∃ c ∈ cs, Fits c.bytes o
  | [], _, ho => .inl (Option.some.inj ho).symm
  | c :: rest, hsound, ho => by
    rw [List.forall_mem_cons] at hsound
    rw [content?] at ho
    split at ho
    · obtain hnothing | ⟨c', hc', hfits⟩ := content?_fits rest hsound.2 ho
      · exact .inl hnothing
      · exact .inr ⟨c', List.mem_cons_of_mem c hc', hfits⟩
    · exact .inr ⟨c, List.mem_cons_self, ofConcrete?_fits c hsound.1 ho⟩

theorem part?_fits {o : Outline} {role : Concrete.Role} :
    (cs : List Concrete) → (∀ c ∈ cs, c.Sound) → part? role cs = some o →
      ∃ c ∈ cs.find? (·.role = role), Fits c.bytes o
  | [], _, ho => by cases ho
  | c :: rest, hsound, ho => by
    rw [List.forall_mem_cons] at hsound
    rw [part?] at ho
    split at ho
    · next hrole => exact ⟨c, by simp [hrole], ofConcrete?_fits c hsound.1 ho⟩
    · next hrole =>
      obtain ⟨c', hc', hfits⟩ := part?_fits rest hsound.2 ho
      exact ⟨c', by simpa [hrole] using hc', hfits⟩

theorem pairOf?_row :
    (c : Concrete) → c.Sound → c.kind = .pair →
      Row [c] ((pairOf? c).toList.flatMap fun (k, v) => [k, v])
  | .node kind _ _ children, .node horder hsound, hkind => by
    obtain rfl : kind = .pair := hkind
    exact parts_row horder fun _ _ => part?_fits children hsound

theorem entries_row :
    (cs : List Concrete) → (∀ c ∈ cs, c.Sound) →
      cs.Pairwise (fun a b => a.bytes.stop ≤ b.bytes.start) →
      Row cs ((entries cs).flatMap fun (k, v) => [k, v])
  | [], _, _ => .nil []
  | c :: rest, hsound, hapart => by
    rw [List.forall_mem_cons] at hsound
    rw [List.pairwise_cons] at hapart
    have hrest := entries_row rest hsound.2 hapart.2
    rw [entries]
    split
    · next hkind =>
      rw [List.flatMap_append]
      exact (pairOf?_row c hsound.1 hkind).append hapart.1 hrest
    · rw [List.flatMap_append]
      refine (paired_row (fun k hk => ?_) (by simp)).append hapart.1 hrest
      have hfits := ofConcrete?_fits c hsound.1 hk
      exact ⟨hfits, hfits.inside.stop, fits_nothing hsound.1.forward (Nat.le_refl _)⟩
    · exact hrest.skip

theorem items_row :
    (cs : List Concrete) → (∀ c ∈ cs, c.Sound) →
      cs.Pairwise (fun a b => a.bytes.stop ≤ b.bytes.start) → Row cs (items cs)
  | [], _, _ => .nil []
  | c :: rest, hsound, hapart => by
    rw [List.forall_mem_cons] at hsound
    rw [List.pairwise_cons] at hapart
    have hrest := items_row rest hsound.2 hapart.2
    rw [items]
    split
    · exact (Row.single (dashed_fits c hsound.1)).append hapart.1 hrest
    · cases ho : ofConcrete? c with
      | none => exact hrest.skip
      | some o => exact (Row.single (ofConcrete?_fits c hsound.1 ho)).append hapart.1 hrest

theorem dashed_fits : (c : Concrete) → c.Sound → Fits c.bytes (dashed c)
  | .node _ _ bytes children, .node horder hsound => by
    rw [dashed]
    cases hfirst : first? children with
    | none => exact fits_nothing horder.forward (Nat.le_refl _)
    | some o =>
      obtain ⟨c, hc, hfits⟩ := first?_fits children hsound hfirst
      exact hfits.mono (horder.inside c hc)

end

end Tree.Outline
end WorkflowLint

import Mathlib.Data.List.Basic
import Mathlib.Data.List.Nodup
import Mathlib.Logic.Function.Iterate

/-!
# Singly linked chains

`LinkPath next a xs z`: starting at `a` and following `next`, one visits
exactly the nodes `xs` and then arrives at `z`. With `z` the null link this is
a linked list; with `z` a node it is a prefix of one. The relation is local in
`next`: changing the link of a node outside `xs` does not matter.
-/

namespace EmbeddedMx.Lib

variable {α : Type*}

/-- The nodes between `a` and `z` along `next` are `xs`. -/
def LinkPath (next : α → α) : α → List α → α → Prop
  | a, [], z => a = z
  | a, x :: xs, z => a = x ∧ LinkPath next (next x) xs z

theorem linkPath_append {next : α → α} {a z : α} {xs ys : List α} :
    LinkPath next a (xs ++ ys) z ↔ ∃ b, LinkPath next a xs b ∧ LinkPath next b ys z := by
  induction xs generalizing a with
  | nil => simp [LinkPath]
  | cons x xs ih => simp only [List.cons_append, LinkPath, ih, and_assoc, exists_and_left]

/-- Only the links of the visited nodes matter. -/
theorem LinkPath.congr {next next' : α → α} {a z : α} {xs : List α}
    (h : LinkPath next a xs z) (hnext : ∀ x ∈ xs, next' x = next x) :
    LinkPath next' a xs z := by
  induction xs generalizing a with
  | nil => exact h
  | cons x xs ih =>
      refine ⟨h.1, ?_⟩
      rw [hnext x List.mem_cons_self]
      exact ih h.2 fun y hy => hnext y (List.mem_cons_of_mem _ hy)

/-- The start of a path is its first node, or its end if there is none. -/
theorem LinkPath.start_eq {next : α → α} {a z : α} {xs : List α}
    (h : LinkPath next a xs z) : a = xs.head?.getD z := by
  cases xs with
  | nil => exact h
  | cons x xs => exact h.1

/-- A list ending in a null link that is not a node is determined by its start. -/
theorem LinkPath.unique {next : α → α} {a z : α} {xs ys : List α}
    (hx : LinkPath next a xs z) (hy : LinkPath next a ys z) (hxz : z ∉ xs) (hyz : z ∉ ys) :
    xs = ys := by
  induction xs generalizing a ys with
  | nil =>
      cases ys with
      | nil => rfl
      | cons y ys => exact absurd (hx ▸ hy.1 ▸ List.mem_cons_self) hyz
  | cons x xs ih =>
      cases ys with
      | nil => exact absurd (hy ▸ hx.1 ▸ List.mem_cons_self) hxz
      | cons y ys =>
          have hxy : x = y := hx.1.symm.trans hy.1
          subst hxy
          rw [ih hx.2 hy.2 (fun h => hxz (List.mem_cons_of_mem _ h))
            (fun h => hyz (List.mem_cons_of_mem _ h))]

/-- A list ending in a null link that is not a node visits no node twice. -/
theorem LinkPath.nodup {next : α → α} {a z : α} {xs : List α} (h : LinkPath next a xs z)
    (hz : z ∉ xs) : xs.Nodup := by
  induction xs generalizing a with
  | nil => exact List.nodup_nil
  | cons x xs ih =>
      have hzs : z ∉ xs := fun hmem => hz (List.mem_cons_of_mem _ hmem)
      refine List.nodup_cons.mpr ⟨fun hmem => ?_, ih h.2 hzs⟩
      -- behind the second visit of x the list would go on as behind the first
      obtain ⟨pre, post, hsplit⟩ := List.append_of_mem hmem
      have hpath := h.2
      rw [hsplit] at hpath
      obtain ⟨b, -, hb⟩ := linkPath_append.mp hpath
      have hsame : xs = post := h.2.unique hb.2 hzs fun hpost =>
        hzs (hsplit ▸ List.mem_append_right _ (List.mem_cons_of_mem _ hpost))
      have hlength := congrArg List.length hsplit
      rw [hsame, List.length_append, List.length_cons] at hlength
      omega

/-- Behind a visited node comes a visited node, or the end. -/
theorem LinkPath.next_mem {next : α → α} {a z x : α} {xs : List α} (h : LinkPath next a xs z)
    (hx : x ∈ xs) : next x ∈ xs ∨ next x = z := by
  induction xs generalizing a with
  | nil => cases hx
  | cons y xs ih =>
      rcases List.mem_cons.mp hx with rfl | hx
      · cases xs with
        | nil => exact .inr h.2
        | cons y ys =>
            rw [h.2.1]
            exact .inl (List.mem_cons_of_mem _ List.mem_cons_self)
      · exact (ih h.2 hx).imp_left (List.mem_cons_of_mem _)

/-- A visited node that is not the first one has another one before it. -/
theorem LinkPath.exists_prev {next : α → α} {a z x : α} {xs : List α} (h : LinkPath next a xs z)
    (hx : x ∈ xs) (hne : x ≠ a) : ∃ t ∈ xs, next t = x := by
  induction xs generalizing a with
  | nil => cases hx
  | cons y xs ih =>
      obtain ⟨rfl, hpath⟩ := h
      have hx := (List.mem_cons.mp hx).resolve_left hne
      by_cases hfirst : x = next a
      · exact ⟨a, List.mem_cons_self, hfirst.symm⟩
      · obtain ⟨t, ht, hnext⟩ := ih hpath hx hfirst
        exact ⟨t, List.mem_cons_of_mem _ ht, hnext⟩

/-- Every visited node is reached by following the links. -/
theorem LinkPath.reached {next : α → α} {a z x : α} {xs : List α} (h : LinkPath next a xs z)
    (hx : x ∈ xs) : ∃ k, next^[k] a = x := by
  induction xs generalizing a with
  | nil => cases hx
  | cons y xs ih =>
      rcases List.mem_cons.mp hx with rfl | hx
      · exact ⟨0, h.1⟩
      · obtain ⟨k, hk⟩ := ih h.2 hx
        refine ⟨k + 1, ?_⟩
        rw [Function.iterate_succ_apply, h.1]
        exact hk

section Unlink

variable [DecidableEq α]

/-- The link to `r` is bent past it. The path loses `r` if it led over that link, and
stays as it is otherwise. -/
theorem LinkPath.unlink {next : α → α} {a z t r : α} {xs : List α} (h : LinkPath next a xs z)
    (hz : z ∉ xs) (hnext : next t = r) (hr : r ≠ z) :
    LinkPath (Function.update next t (next r)) a (if t ∈ xs then xs.erase r else xs) z := by
  split
  · rename_i ht
    obtain ⟨pre, post, hsplit⟩ := List.append_of_mem ht
    have hnodup := h.nodup hz
    rw [hsplit] at h hnodup
    obtain ⟨b, hpre, rfl, hpost⟩ := linkPath_append.mp h
    rw [hnext] at hpost
    cases post with
    | nil => exact absurd hpost hr
    | cons x post =>
        obtain ⟨rfl, hpost⟩ := hpost
        obtain ⟨-, htail, hdisjoint⟩ := List.nodup_append.mp hnodup
        obtain ⟨hnt, hrest⟩ := List.nodup_cons.mp htail
        have hpre_r : r ∉ pre := fun hmem =>
          hdisjoint r hmem r (List.mem_cons_of_mem _ List.mem_cons_self) rfl
        have hpre_b : b ∉ pre := fun hmem => hdisjoint b hmem b List.mem_cons_self rfl
        have hbr : b ≠ r := fun heq => hnt (heq ▸ List.mem_cons_self)
        have herase : xs.erase r = pre ++ b :: post := by
          rw [hsplit, List.erase_append_right _ hpre_r,
            List.erase_cons_tail (by simpa using hbr), List.erase_cons_head]
        rw [herase]
        refine linkPath_append.mpr ⟨b, hpre.congr fun x hx => ?_, rfl, ?_⟩
        · exact Function.update_of_ne (fun heq : x = b => hpre_b (heq ▸ hx)) _ _
        · rw [Function.update_self]
          refine hpost.congr fun x hx => Function.update_of_ne (fun heq : x = b => ?_) _ _
          exact hnt (heq ▸ List.mem_cons_of_mem _ hx)
  · rename_i ht
    exact h.congr fun x hx => Function.update_of_ne (fun heq : x = t => ht (heq ▸ hx)) _ _

end Unlink

end EmbeddedMx.Lib

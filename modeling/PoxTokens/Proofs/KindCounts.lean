import Mathlib.Data.List.Induction
import Mathlib.Data.List.Nodup
import PoxTokens.Listing

/-!
# PoxTokens.Proofs.KindCounts

The counts of kinds.  They are said in one equation (`kindCounts_eq`): for each kind that
occurs, in the order of first occurrences, the number of its tokens.  The proof adds the
tokens one by one at the end, as the counts are made.

The counts of the names of the kinds, made by putting in an entry that is missing and then
adding one to it, are the same, since no two kinds share a name (`nameCounts_eq`).
-/

namespace PoxTokens

/-- What the counts add up to. -/
def totalCount : List (Kind × Nat) → Nat
  | [] => 0
  | (_, n) :: counts => n + totalCount counts

/-! ## One more -/

/-- Counting one more raises the total by one. -/
theorem totalCount_countKind (kind : Kind) (counts : List (Kind × Nat)) :
    totalCount (countKind kind counts) = totalCount counts + 1 := by
  induction counts with
  | nil => rfl
  | cons entry counts ih =>
      obtain ⟨k, n⟩ := entry
      rw [countKind]
      split
      · simp only [totalCount]
        omega
      · simp only [totalCount, ih]
        omega

/-- A kind that has no count gets one at the end. -/
theorem countKind_of_not_mem {kind : Kind} {counts : List (Kind × Nat)}
    (h : kind ∉ counts.map (·.1)) : countKind kind counts = counts ++ [(kind, 1)] := by
  induction counts with
  | nil => rfl
  | cons entry counts ih =>
      obtain ⟨k, n⟩ := entry
      rw [List.map_cons, List.mem_cons, not_or] at h
      rw [countKind, if_neg (Ne.symm h.1), ih h.2]
      rfl

/-- A kind that has a count keeps its place. -/
theorem exists_append_of_mem {kind : Kind} {counts : List (Kind × Nat)}
    (h : kind ∈ counts.map (·.1)) :
    ∃ before n after, counts = before ++ (kind, n) :: after ∧
      countKind kind counts = before ++ (kind, n + 1) :: after := by
  induction counts with
  | nil => contradiction
  | cons entry counts ih =>
      obtain ⟨k, n⟩ := entry
      rw [countKind]
      split
      · next heq =>
        rw [heq]
        exact ⟨[], n, counts, rfl, rfl⟩
      · next hne =>
        rw [List.map_cons, List.mem_cons] at h
        obtain ⟨before, m, after, heq, hcount⟩ := ih (h.resolve_left (Ne.symm hne))
        exact ⟨(k, n) :: before, m, after, by rw [heq]; rfl, by rw [hcount]; rfl⟩

/-- A kind that has a count gets a greater one, and no other changes. -/
theorem countKind_of_mem {kind : Kind} {kinds : List Kind} (h : kind ∈ kinds) (hnodup : kinds.Nodup)
    (f : Kind → Nat) :
    countKind kind (kinds.map fun k => (k, f k)) =
      kinds.map fun k => (k, f k + if kind = k then 1 else 0) := by
  induction kinds with
  | nil => contradiction
  | cons k kinds ih =>
      obtain ⟨hk, hnodup⟩ := List.nodup_cons.mp hnodup
      rw [List.map_cons, countKind]
      split
      · next heq =>
        subst heq
        have hothers : ∀ j ∈ kinds, (j, f j) = (j, f j + if k = j then 1 else 0) := by
          intro j hj
          have hne : k ≠ j := fun heq => hk (heq ▸ hj)
          rw [if_neg hne, Nat.add_zero]
        rw [List.map_cons, if_pos rfl, List.map_congr_left hothers]
      · next hne =>
        have hkind : kind ∈ kinds := by
          rcases List.mem_cons.mp h with heq | hmem
          · exact absurd heq.symm hne
          · exact hmem
        rw [ih hkind hnodup, List.map_cons, if_neg (Ne.symm hne), Nat.add_zero]

/-! ## All tokens -/

theorem nodup_eraseDups (kinds : List Kind) : kinds.eraseDups.Nodup := by
  cases kinds with
  | nil => exact List.nodup_nil
  | cons k kinds =>
      rw [List.eraseDups_cons, List.nodup_cons]
      exact ⟨by simp [List.mem_eraseDups], nodup_eraseDups _⟩
termination_by kinds.length
decreasing_by exact Nat.lt_succ_of_le (List.length_filter_le _ _)

/-- A kind that was seen before does not count as a new one. -/
theorem eraseDups_append_singleton_of_mem {kind : Kind} {kinds : List Kind} (h : kind ∈ kinds) :
    (kinds ++ [kind]).eraseDups = kinds.eraseDups := by
  rw [List.eraseDups_append]
  simp [List.removeAll, h]

/-- A kind that is seen for the first time comes last. -/
theorem eraseDups_append_singleton_of_not_mem {kind : Kind} {kinds : List Kind}
    (h : kind ∉ kinds) : (kinds ++ [kind]).eraseDups = kinds.eraseDups ++ [kind] := by
  rw [List.eraseDups_append]
  simp [List.removeAll, h, List.eraseDups_cons]

/-- **One step**: a token behind the others is counted where its kind is. -/
theorem kindCounts_append_singleton (tokens : List Token) (t : Token) :
    kindCounts (tokens ++ [t]) = countKind t.kind (kindCounts tokens) := by
  rw [kindCounts, List.foldl_append]
  rfl

/-- The counts are the numbers of tokens of the kinds in the order of first occurrences. -/
theorem kindCounts_eq (tokens : List Token) :
    kindCounts tokens = (tokens.map (·.kind)).eraseDups.map fun k =>
      (k, (tokens.map (·.kind)).count k) := by
  induction tokens using List.reverseRecOn with
  | nil => rfl
  | append_singleton tokens t ih =>
      have hcount : ∀ k, (tokens.map (·.kind) ++ [t.kind]).count k =
          (tokens.map (·.kind)).count k + if t.kind = k then 1 else 0 := by
        intro k
        rw [List.count_append, List.count_singleton]
        simp only [beq_iff_eq]
      rw [kindCounts_append_singleton, ih, List.map_append, List.map_singleton]
      generalize tokens.map (·.kind) = kinds at hcount
      simp only [hcount]
      by_cases hmem : t.kind ∈ kinds
      · rw [eraseDups_append_singleton_of_mem hmem]
        exact countKind_of_mem (List.mem_eraseDups.mpr hmem) (nodup_eraseDups _) _
      · rw [eraseDups_append_singleton_of_not_mem hmem, List.map_append, List.map_singleton,
          if_pos rfl, List.count_eq_zero_of_not_mem hmem, countKind_of_not_mem]
        have hothers : ∀ k ∈ kinds.eraseDups,
            (k, kinds.count k) = (k, kinds.count k + if t.kind = k then 1 else 0) := by
          intro k hk
          have hne : t.kind ≠ k := fun heq => hmem (heq ▸ List.mem_eraseDups.mp hk)
          rw [if_neg hne, Nat.add_zero]
        · rw [List.map_congr_left hothers]
        · simpa using hmem

/-- The kinds that have counts, in order. -/
theorem map_fst_kindCounts (tokens : List Token) :
    (kindCounts tokens).map (·.1) = (tokens.map (·.kind)).eraseDups := by
  rw [kindCounts_eq, List.map_map]
  exact List.map_id _

/-- A count is listed exactly if it is the number of tokens of its kind, and there are some. -/
theorem mem_kindCounts_iff {tokens : List Token} {kind : Kind} {n : Nat} :
    (kind, n) ∈ kindCounts tokens ↔ 0 < n ∧ n = (tokens.map (·.kind)).count kind := by
  rw [kindCounts_eq, List.mem_map]
  constructor
  · rintro ⟨k, hk, heq⟩
    obtain ⟨rfl, rfl⟩ := Prod.mk.inj heq
    exact ⟨List.count_pos_iff.mpr (List.mem_eraseDups.mp hk), rfl⟩
  · rintro ⟨hpos, rfl⟩
    exact ⟨kind, List.mem_eraseDups.mpr (List.count_pos_iff.mp hpos), rfl⟩

/-- Without repetitions there remain the first occurrences, in their order. -/
theorem pairwise_idxOf_eraseDups (kinds : List Kind) :
    kinds.eraseDups.Pairwise fun k l => kinds.idxOf k < kinds.idxOf l := by
  induction kinds using List.reverseRecOn with
  | nil => exact .nil
  | append_singleton kinds kind ih =>
      have hkeep : kinds.eraseDups.Pairwise fun k l =>
          (kinds ++ [kind]).idxOf k < (kinds ++ [kind]).idxOf l := by
        refine ih.imp_of_mem fun hk hl hlt => ?_
        rw [List.idxOf_append_of_mem (List.mem_eraseDups.mp hk),
          List.idxOf_append_of_mem (List.mem_eraseDups.mp hl)]
        exact hlt
      by_cases hmem : kind ∈ kinds
      · rw [eraseDups_append_singleton_of_mem hmem]
        exact hkeep
      · rw [eraseDups_append_singleton_of_not_mem hmem, List.pairwise_append]
        refine ⟨hkeep, List.pairwise_singleton _ _, fun k hk l hl => ?_⟩
        have hk : k ∈ kinds := List.mem_eraseDups.mp hk
        rw [List.mem_singleton.mp hl, List.idxOf_append_of_mem hk,
          List.idxOf_append_of_notMem hmem]
        exact Nat.lt_add_right _ (List.idxOf_lt_length_iff.mpr hk)

/-- All counts together are the number of tokens. -/
theorem totalCount_kindCounts (tokens : List Token) :
    totalCount (kindCounts tokens) = tokens.length := by
  induction tokens using List.reverseRecOn with
  | nil => rfl
  | append_singleton tokens t ih =>
      rw [kindCounts_append_singleton, totalCount_countKind, ih, List.length_append,
        List.length_singleton]

/-! ## Names -/

/-- Every kind can be read off its name. -/
theorem Kind.ofName?_name (kind : Kind) : ofName? kind.name = some kind := by
  cases kind with
  | keyword word => cases word <;> decide
  | _ => decide

/-- So no two kinds share a name, and counting by name is counting by kind. -/
theorem Kind.name_injective : Function.Injective Kind.name := by
  intro kind other heq
  have hread := ofName?_name kind
  rw [heq, ofName?_name, Option.some.injEq] at hread
  exact hread.symm

/-- No name is listed twice. -/
theorem nodup_names_kindCounts (tokens : List Token) :
    ((kindCounts tokens).map (·.1.name)).Nodup := by
  have hkinds : (kindCounts tokens).map (·.1.name) =
      ((kindCounts tokens).map (·.1)).map Kind.name := by
    rw [List.map_map]
    rfl
  rw [hkinds, map_fst_kindCounts]
  exact (nodup_eraseDups _).map Kind.name_injective

/-- Counts with an entry for a name; a new entry is the last one and says 0. -/
def withEntry (name : String) (counts : List (String × Nat)) : List (String × Nat) :=
  if counts.any (·.1 == name) then counts else counts ++ [(name, 0)]

/-- Adds one to the entry of a name. -/
def increment (name : String) (counts : List (String × Nat)) : List (String × Nat) :=
  counts.map fun (key, n) => (key, if key = name then n + 1 else n)

theorem increment_cons (name key : String) (n : Nat) (counts : List (String × Nat)) :
    increment name ((key, n) :: counts) =
      (key, if key = name then n + 1 else n) :: increment name counts := rfl

theorem increment_append (name : String) (counts others : List (String × Nat)) :
    increment name (counts ++ others) = increment name counts ++ increment name others :=
  List.map_append

/-- How many tokens there are of each kind, by the names of the kinds. -/
def nameCounts (tokens : List Token) : List (String × Nat) :=
  tokens.foldl (fun counts t => increment t.kind.name (withEntry t.kind.name counts)) []

/-- Where a kind has no count its name has none. -/
theorem increment_of_not_mem {kind : Kind} {counts : List (Kind × Nat)}
    (h : kind ∉ counts.map (·.1)) :
    increment kind.name (counts.map fun (k, n) => (k.name, n)) =
      counts.map fun (k, n) => (k.name, n) := by
  rw [increment, List.map_map]
  refine List.map_congr_left fun entry hentry => ?_
  have hne : entry.1.name ≠ kind.name := fun heq =>
    h (List.mem_map.mpr ⟨entry, hentry, Kind.name_injective heq⟩)
  simp only [Function.comp, if_neg hne]

/-- One more of a kind is one more of its name. -/
theorem increment_withEntry (kind : Kind) {counts : List (Kind × Nat)}
    (hnodup : (counts.map (·.1)).Nodup) :
    increment kind.name (withEntry kind.name (counts.map fun (k, n) => (k.name, n))) =
      (countKind kind counts).map fun (k, n) => (k.name, n) := by
  have hentry : (counts.map fun (k, n) => (k.name, n)).any (·.1 == kind.name) ↔
      kind ∈ counts.map (·.1) := by
    simp [Kind.name_injective.eq_iff]
  rw [withEntry]
  by_cases hmem : kind ∈ counts.map (·.1)
  · obtain ⟨before, n, after, rfl, hcount⟩ := exists_append_of_mem hmem
    rw [if_pos (hentry.mpr hmem), hcount]
    rw [List.map_append, List.map_cons, List.nodup_append, List.nodup_cons] at hnodup
    obtain ⟨-, ⟨hafter, -⟩, hdisjoint⟩ := hnodup
    have hbefore : kind ∉ before.map (·.1) := fun h => hdisjoint kind h kind List.mem_cons_self rfl
    rw [List.map_append, List.map_cons, increment_append, increment_cons,
      increment_of_not_mem hbefore, increment_of_not_mem hafter, if_pos rfl]
    simp
  · rw [if_neg (mt hentry.mp hmem), countKind_of_not_mem hmem, increment_append,
      increment_of_not_mem hmem, increment_cons, if_pos rfl]
    simp [increment]

/-- Counting by name gives the counts by kind, in the same order. -/
theorem nameCounts_eq (tokens : List Token) :
    nameCounts tokens = (kindCounts tokens).map fun (k, n) => (k.name, n) := by
  induction tokens using List.reverseRecOn with
  | nil => rfl
  | append_singleton tokens t ih =>
      have hnodup : ((kindCounts tokens).map (·.1)).Nodup := by
        rw [map_fst_kindCounts]
        exact nodup_eraseDups _
      rw [kindCounts_append_singleton, ← increment_withEntry t.kind hnodup, ← ih, nameCounts,
        List.foldl_append]
      rfl

/-- **Counts**: each kind that occurs has one entry and no other kind has any; the count is the
number of tokens of the kind, and so positive.  The entries stand in the order of the first
occurrences, and the counts add up to the number of tokens.  One more token at the end of the
list adds one to the count of its kind, where it stands, or is the first of its kind and makes
a new entry, at the end.  The counts by names are these counts. -/
theorem kindCounts_exact (tokens : List Token) :
    let kinds := tokens.map (·.kind)
    ((kindCounts tokens).map (·.1)).Nodup ∧
    (∀ kind n, (kind, n) ∈ kindCounts tokens ↔ 0 < n ∧ n = kinds.count kind) ∧
    ((kindCounts tokens).map (·.1)).Pairwise (fun k l => kinds.idxOf k < kinds.idxOf l) ∧
    totalCount (kindCounts tokens) = tokens.length ∧
    (∀ t : Token,
      if t.kind ∈ kinds then
        ∃ before n after, kindCounts tokens = before ++ (t.kind, n) :: after ∧
          kindCounts (tokens ++ [t]) = before ++ (t.kind, n + 1) :: after
      else kindCounts (tokens ++ [t]) = kindCounts tokens ++ [(t.kind, 1)]) ∧
    nameCounts tokens = (kindCounts tokens).map fun (kind, n) => (kind.name, n) := by
  intro kinds
  have hkinds : (kindCounts tokens).map (·.1) = kinds.eraseDups := map_fst_kindCounts tokens
  refine ⟨?_, fun kind n => mem_kindCounts_iff, ?_, totalCount_kindCounts tokens, fun t => ?_,
    nameCounts_eq tokens⟩
  · rw [hkinds]
    exact nodup_eraseDups _
  · rw [hkinds]
    exact pairwise_idxOf_eraseDups _
  · have hmem : t.kind ∈ (kindCounts tokens).map (·.1) ↔ t.kind ∈ kinds := by
      rw [hkinds, List.mem_eraseDups]
    rw [kindCounts_append_singleton]
    split
    · next h => exact exists_append_of_mem (hmem.mpr h)
    · next h => exact countKind_of_not_mem (mt hmem.mp h)

end PoxTokens

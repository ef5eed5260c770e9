import ExprCompiler.Text.Bytes

/-!
Sorted sets of texts: the order is a linear one, so inserting keeps a list strictly increasing and
adds nothing but the new text.
-/

namespace ExprCompiler.Text

theorem precedes_antisymm {left right : Bytes} (before : precedes left right = true)
    (after : precedes right left = true) : left = right := by
  induction left generalizing right with
  | nil =>
      cases right with
      | nil => rfl
      | cons first rest => cases after
  | cons first rest induction =>
      cases right with
      | nil => cases before
      | cons other others =>
          simp only [precedes, Bool.or_eq_true, Bool.and_eq_true, decide_eq_true_eq,
            beq_iff_eq] at before after
          rcases before with less | ⟨rfl, earlier⟩
          · rcases after with more | ⟨rfl, _⟩
            · exact absurd (UInt8.lt_trans less more) (UInt8.lt_irrefl first)
            · exact absurd less (UInt8.lt_irrefl _)
          · rcases after with more | ⟨_, later⟩
            · exact absurd more (UInt8.lt_irrefl first)
            · rw [induction earlier later]

theorem precedes_trans {first second third : Bytes} (before : precedes first second = true)
    (after : precedes second third = true) : precedes first third = true := by
  induction first generalizing second third with
  | nil => rfl
  | cons byte rest induction =>
      cases second with
      | nil => cases before
      | cons byte' rest' =>
          cases third with
          | nil => cases after
          | cons byte'' rest'' =>
              simp only [precedes, Bool.or_eq_true, Bool.and_eq_true, decide_eq_true_eq,
                beq_iff_eq] at before after ⊢
              rcases before with less | ⟨rfl, earlier⟩
              · rcases after with more | ⟨rfl, _⟩
                · exact .inl (UInt8.lt_trans less more)
                · exact .inl less
              · rcases after with more | ⟨rfl, later⟩
                · exact .inl more
                · exact .inr ⟨rfl, induction earlier later⟩

theorem precedes_total (left right : Bytes) :
    precedes left right = true ∨ precedes right left = true := by
  induction left generalizing right with
  | nil => exact .inl rfl
  | cons first rest induction =>
      cases right with
      | nil => exact .inr rfl
      | cons other others =>
          simp only [precedes, Bool.or_eq_true, Bool.and_eq_true, decide_eq_true_eq, beq_iff_eq]
          have order : first < other ∨ first = other ∨ other < first := by
            rw [UInt8.lt_iff_toNat_lt, UInt8.lt_iff_toNat_lt, ← UInt8.toNat_inj]
            omega
          rcases order with less | rfl | more
          · exact .inl (.inl less)
          · rcases induction others with before | after
            · exact .inl (.inr ⟨rfl, before⟩)
            · exact .inr (.inr ⟨rfl, after⟩)
          · exact .inr (.inl more)

def Increasing (texts : List Bytes) : Prop :=
  texts.Pairwise fun left right => precedes left right = true ∧ left ≠ right

theorem Increasing.nodup {texts : List Bytes} (increasing : Increasing texts) : texts.Nodup :=
  List.Pairwise.imp (fun related => related.2) increasing

@[simp] theorem mem_insert_sorted (text other : Bytes) (texts : List Bytes) :
    other ∈ insertSorted text texts ↔ other = text ∨ other ∈ texts := by
  induction texts with
  | nil => simp [insertSorted]
  | cons first rest induction =>
      rw [insertSorted]
      split
      · rename_i same
        subst same
        simp
      · split
        · simp
        · simp only [List.mem_cons, induction]
          constructor
          · rintro (atFirst | new | inRest)
            · exact .inr (.inl atFirst)
            · exact .inl new
            · exact .inr (.inr inRest)
          · rintro (new | atFirst | inRest)
            · exact .inr (.inl new)
            · exact .inl atFirst
            · exact .inr (.inr inRest)

theorem increasing_insert_sorted (text : Bytes) {texts : List Bytes}
    (increasing : Increasing texts) : Increasing (insertSorted text texts) := by
  induction texts with
  | nil => exact List.pairwise_singleton _ _
  | cons first rest induction =>
      obtain ⟨beforeRest, restIncreasing⟩ := List.pairwise_cons.mp increasing
      rw [insertSorted]
      split
      · exact increasing
      · rename_i different
        split
        · rename_i before
          refine List.pairwise_cons.mpr ⟨?_, increasing⟩
          intro other member
          rcases List.mem_cons.mp member with rfl | inRest
          · exact ⟨before, different⟩
          · have later := beforeRest other inRest
            refine ⟨precedes_trans before later.1, ?_⟩
            rintro rfl
            exact different (precedes_antisymm before later.1)
        · rename_i notBefore
          have after : precedes first text = true :=
            (precedes_total text first).resolve_left notBefore
          refine List.pairwise_cons.mpr ⟨?_, induction restIncreasing⟩
          intro other member
          rcases (mem_insert_sorted text other rest).mp member with rfl | inRest
          · exact ⟨after, fun same => different same.symm⟩
          · exact beforeRest other inRest

theorem increasing_sorted_set (texts : List Bytes) : Increasing (sortedSet texts) := by
  have grow (texts sorted : List Bytes) (increasing : Increasing sorted) :
      Increasing (texts.foldl (fun sorted text => insertSorted text sorted) sorted) := by
    induction texts generalizing sorted with
    | nil => exact increasing
    | cons text texts induction =>
        exact induction _ (increasing_insert_sorted text increasing)
  exact grow texts [] List.Pairwise.nil

@[simp] theorem mem_sorted_set (text : Bytes) (texts : List Bytes) :
    text ∈ sortedSet texts ↔ text ∈ texts := by
  have grow (texts sorted : List Bytes) :
      text ∈ texts.foldl (fun sorted text => insertSorted text sorted) sorted ↔
        text ∈ sorted ∨ text ∈ texts := by
    induction texts generalizing sorted with
    | nil => simp
    | cons first texts induction =>
        rw [List.foldl_cons, induction, mem_insert_sorted, List.mem_cons]
        constructor
        · rintro ((atFirst | inSorted) | inTexts)
          · exact .inr (.inl atFirst)
          · exact .inl inSorted
          · exact .inr (.inr inTexts)
        · rintro (inSorted | atFirst | inTexts)
          · exact .inl (.inr inSorted)
          · exact .inl (.inl atFirst)
          · exact .inr inTexts
  rw [sortedSet, grow]
  simp

end ExprCompiler.Text

import ExprCompiler.Assembly.Buffer

/-!
The peephole pass in one sweep. Merging while lines are emitted gives the same as replacing, once
all lines are there, every `push` with a `pop` behind it by a `mov`. No pair is left, after any
number of lines.
-/

namespace ExprCompiler

namespace Line

def mergePairs : List Line → List Line
  | first :: second :: rest =>
      match first.merge? second with
      | some merged => merged :: mergePairs rest
      | none => first :: mergePairs (second :: rest)
  | lines => lines

def isPush : Line → Bool
  | instruction .push [_] => true
  | _ => false

def isPop : Line → Bool
  | instruction .pop [_] => true
  | _ => false

theorem merge_cases {first second merged : Line} (merge : first.merge? second = some merged) :
    ∃ source target, first = instruction .push [source] ∧ second = instruction .pop [target] ∧
      merged = instruction .mov [target, source] := by
  unfold merge? at merge
  split at merge
  · cases merge
    exact ⟨_, _, rfl, rfl, rfl⟩
  · cases merge

theorem merge_none_of_not_push {first second : Line} (noPush : first.isPush = false) :
    first.merge? second = none := by
  cases merge : first.merge? second with
  | none => rfl
  | some merged =>
      obtain ⟨source, target, rfl, _⟩ := merge_cases merge
      cases noPush

theorem merge_none_of_not_pop {first second : Line} (noPop : second.isPop = false) :
    first.merge? second = none := by
  cases merge : first.merge? second with
  | none => rfl
  | some merged =>
      obtain ⟨source, target, _, rfl, _⟩ := merge_cases merge
      cases noPop

theorem merge_pairs_cons_of_not_push {first : Line} (rest : List Line)
    (noPush : first.isPush = false) : mergePairs (first :: rest) = first :: mergePairs rest := by
  cases rest with
  | nil => rfl
  | cons second rest => rw [mergePairs, merge_none_of_not_push noPush]

theorem merge_pairs_of_no_pop {lines : List Line} (noPop : ∀ line ∈ lines, line.isPop = false) :
    mergePairs lines = lines := by
  induction lines with
  | nil => rfl
  | cons first rest induction =>
      have later := induction fun line member => noPop line (by simp [member])
      cases rest with
      | nil => rfl
      | cons second rest =>
          rw [mergePairs, merge_none_of_not_pop (noPop second (by simp)), later]

/-- Two lists meet without a merge when the second starts with no `pop`. -/
theorem merge_pairs_append {before after : List Line}
    (noPop : ∀ line ∈ after.head?, line.isPop = false) :
    mergePairs (before ++ after) = mergePairs before ++ mergePairs after := by
  fun_induction mergePairs before with
  | case1 first second rest merged merge induction =>
      rw [List.cons_append, List.cons_append, mergePairs, merge, induction, List.cons_append]
  | case2 first second rest noMerge induction =>
      rw [List.cons_append] at induction
      rw [List.cons_append, List.cons_append, mergePairs, noMerge, induction, List.cons_append]
  | case3 lines short =>
      cases lines with
      | nil => rfl
      | cons first rest =>
          cases rest with
          | cons second rest => exact absurd rfl (short first second rest)
          | nil =>
              cases after with
              | nil => rfl
              | cons next later =>
                  have merge := @merge_none_of_not_pop first next (noPop next (by simp))
                  rw [List.singleton_append, mergePairs, merge]
                  rfl

theorem merge_pairs_length_le (lines : List Line) : (mergePairs lines).length ≤ lines.length := by
  fun_induction mergePairs lines with
  | case1 first second rest merged merge induction =>
      simp only [List.length_cons]
      omega
  | case2 first second rest noMerge induction =>
      simp only [List.length_cons] at induction ⊢
      omega
  | case3 lines short => exact Nat.le_refl _

/-- A `push` in front of a `pop`, each of one operand. -/
def isPair (first second : Line) : Bool := first.isPush && second.isPop

def pairCount (lines : List Line) : Nat :=
  (lines.zip lines.tail).countP fun neighbours => isPair neighbours.1 neighbours.2

/-- `result` is `lines` with a `mov` for each pair and every other line as it was; `count` pairs
were replaced. -/
inductive Rewritten : (lines result : List Line) → (count : Nat) → Prop where
  | nil : Rewritten [] [] 0
  | pair {lines result : List Line} {count : Nat} (source target : Operand)
      (rest : Rewritten lines result count) :
      Rewritten (instruction .push [source] :: instruction .pop [target] :: lines)
        (instruction .mov [target, source] :: result) (count + 1)
  | other {lines result : List Line} {count : Nat} {line : Line}
      (alone : ∀ next ∈ lines.head?, line.isPair next = false)
      (rest : Rewritten lines result count) :
      Rewritten (line :: lines) (line :: result) count

theorem is_pair_iff {first second : Line} : first.isPair second = true ↔
    ∃ source target, first = instruction .push [source] ∧ second = instruction .pop [target] := by
  constructor
  · intro pair
    unfold isPair isPush isPop at pair
    split at pair
    · split at pair
      · exact ⟨_, _, rfl, rfl⟩
      · cases pair
    · cases pair
  · rintro ⟨source, target, rfl, rfl⟩
    rfl

theorem merge_none_iff {first second : Line} :
    first.merge? second = none ↔ first.isPair second = false := by
  constructor
  · intro noMerge
    rw [← Bool.not_eq_true]
    intro pair
    obtain ⟨source, target, rfl, rfl⟩ := is_pair_iff.mp pair
    cases noMerge
  · intro noPair
    cases merge : first.merge? second with
    | none => rfl
    | some merged =>
        obtain ⟨source, target, rfl, rfl, _⟩ := merge_cases merge
        cases noPair

theorem pair_count_cons (first second : Line) (rest : List Line) :
    pairCount (first :: second :: rest) =
      pairCount (second :: rest) + if first.isPair second then 1 else 0 := by
  simp only [pairCount, List.tail_cons, List.zip_cons_cons, List.countP_cons]

theorem pair_count_alone {line : Line} {rest : List Line}
    (alone : ∀ next ∈ rest.head?, line.isPair next = false) :
    pairCount (line :: rest) = pairCount rest := by
  cases rest with
  | nil => rfl
  | cons next rest =>
      rw [pair_count_cons, alone next (by simp)]
      rfl

theorem pair_count_not_push {line : Line} (noPush : line.isPush = false) (rest : List Line) :
    pairCount (line :: rest) = pairCount rest := by
  apply pair_count_alone
  intro next _
  rw [isPair, noPush, Bool.false_and]

/-- Pairs do not overlap, so one sweep from the front replaces each of them. -/
theorem rewritten_merge_pairs (lines : List Line) :
    Rewritten lines (mergePairs lines) (pairCount lines) := by
  fun_induction mergePairs lines with
  | case1 first second rest merged merge induction =>
      obtain ⟨source, target, rfl, rfl, rfl⟩ := merge_cases merge
      rw [pair_count_cons, pair_count_not_push rfl]
      exact .pair source target induction
  | case2 first second rest noMerge induction =>
      have alone : ∀ next ∈ (second :: rest).head?, first.isPair next = false := by
        intro next member
        cases member
        exact merge_none_iff.mp noMerge
      rw [pair_count_alone alone]
      exact .other alone induction
  | case3 lines short =>
      cases lines with
      | nil => exact .nil
      | cons first rest =>
          cases rest with
          | nil => exact .other (by simp) .nil
          | cons second rest => exact absurd rfl (short first second rest)

theorem Rewritten.unique {lines result other : List Line} {count count' : Nat}
    (one : Rewritten lines result count) (two : Rewritten lines other count') :
    result = other ∧ count = count' := by
  induction one generalizing other count' with
  | nil =>
      cases two
      exact ⟨rfl, rfl⟩
  | pair source target rest induction =>
      cases two with
      | pair _ _ rest' =>
          obtain ⟨rfl, rfl⟩ := induction rest'
          exact ⟨rfl, rfl⟩
      | other alone _ => cases alone _ rfl
  | other alone rest induction =>
      cases two with
      | pair => cases alone _ rfl
      | other _ rest' =>
          obtain ⟨rfl, rfl⟩ := induction rest'
          exact ⟨rfl, rfl⟩

theorem Rewritten.length {lines result : List Line} {count : Nat}
    (rewritten : Rewritten lines result count) : result.length + count = lines.length := by
  induction rewritten with
  | nil => rfl
  | pair _ _ _ induction =>
      simp only [List.length_cons]
      omega
  | other _ _ induction =>
      simp only [List.length_cons]
      omega

theorem Rewritten.front_pop {lines result : List Line} {count : Nat}
    (rewritten : Rewritten lines result count) :
    ∀ line ∈ result.head?, line.isPop = true → line ∈ lines.head? := by
  intro line front isPop
  cases rewritten with
  | nil => cases front
  | pair =>
      cases front
      cases isPop
  | other => exact front

/-- A `mov` is no part of a pair, so replacing a pair makes no new one. -/
theorem Rewritten.no_pair_left {lines result : List Line} {count : Nat}
    (rewritten : Rewritten lines result count) : pairCount result = 0 := by
  induction rewritten with
  | nil => rfl
  | pair source target rest induction => rw [pair_count_not_push rfl, induction]
  | @other lines result count line alone rest induction =>
      rw [pair_count_alone, induction]
      intro next front
      rw [isPair, Bool.and_eq_false_iff]
      by_cases isPop : next.isPop = true
      · have before := alone next (rest.front_pop next front isPop)
        rwa [isPair, Bool.and_eq_false_iff] at before
      · exact .inr (Bool.not_eq_true _ ▸ isPop)

end Line

namespace Buffer

theorem lines_length (buffer : Buffer) : buffer.lines.length = buffer.size := List.length_reverse

theorem emit_all_plain (reversed lines : List Line) :
    (emitAll ⟨false, reversed⟩ lines).lines = reversed.reverse ++ lines := by
  induction lines generalizing reversed with
  | nil => simp [emitAll, Buffer.lines]
  | cons line rest induction =>
      have later := induction (line :: reversed)
      simp only [emitAll, List.foldl_cons, emit] at later ⊢
      rw [later]
      simp

/-- What was emitted stays, up to a merge of the last line with what comes next. -/
theorem emit_all_merged (last : Line) (earlier lines : List Line) :
    (emitAll ⟨true, last :: earlier⟩ lines).lines =
      earlier.reverse ++ Line.mergePairs (last :: lines) := by
  induction lines generalizing last earlier with
  | nil => simp [emitAll, Buffer.lines, Line.mergePairs]
  | cons line rest induction =>
      cases merge : last.merge? line with
      | none =>
          have later := induction line (last :: earlier)
          simp only [emitAll, List.foldl_cons, emit, merge, Line.mergePairs] at later ⊢
          rw [later]
          simp
      | some merged =>
          have later := induction merged earlier
          obtain ⟨source, target, rfl, rfl, rfl⟩ := Line.merge_cases merge
          rw [Line.merge_pairs_cons_of_not_push rest rfl] at later
          simp only [emitAll, List.foldl_cons, emit, merge, Line.mergePairs] at later ⊢
          exact later

theorem lines_emit_all (peephole : Bool) (lines : List Line) :
    (({ peephole := peephole : Buffer }).emitAll lines).lines =
      if peephole then Line.mergePairs lines else lines := by
  cases peephole with
  | false => exact emit_all_plain [] lines
  | true =>
      cases lines with
      | nil => rfl
      | cons line rest => exact emit_all_merged line [] rest

/-- Merging eagerly is one rewrite of all lines: the lines with the peephole pass on are the lines
without it, each pair replaced and nothing else changed. After any number of lines no pair is left,
and the lengths differ by the number of pairs. -/
theorem eager_rewrite_global (lines : List Line) :
    let plain := ({ peephole := false : Buffer }).emitAll lines
    let merged := ({ peephole := true : Buffer }).emitAll lines
    plain.lines = lines ∧
      (∀ result count, Line.Rewritten plain.lines result count ↔
        result = merged.lines ∧ count = Line.pairCount plain.lines) ∧
      (∀ number, Line.pairCount
        (({ peephole := true : Buffer }).emitAll (lines.take number)).lines = 0) ∧
      merged.size + Line.pairCount plain.lines = plain.size := by
  intro plain merged
  have plainLines : plain.lines = lines := lines_emit_all false lines
  have mergedLines : merged.lines = Line.mergePairs lines := lines_emit_all true lines
  have rewritten := Line.rewritten_merge_pairs lines
  refine ⟨plainLines, ?_, ?_, ?_⟩
  · intro result count
    rw [plainLines, mergedLines]
    constructor
    · intro other
      exact other.unique rewritten
    · rintro ⟨rfl, rfl⟩
      exact rewritten
  · intro number
    rw [lines_emit_all true (lines.take number)]
    exact (Line.rewritten_merge_pairs (lines.take number)).no_pair_left
  · rw [plainLines, ← lines_length, ← lines_length, mergedLines, plainLines]
    exact rewritten.length

end Buffer
end ExprCompiler

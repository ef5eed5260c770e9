import ExprCompiler.Proofs.Codegen.Compiled

/-!
One source under different options. The data of a program depend on its variables only, and folding
changes neither these nor whether a tree has code. So a source that compiles and loads with some
options does so with any others that write the same characters, with the same data in the same
places.
-/

namespace ExprCompiler

namespace Expr

variable {declared : List Bytes}

theorem supported_of_arithmetic {expr : Expr} (arithmetic : expr.Arithmetic declared) :
    expr.unsupported declared = [] := by
  induction arithmetic with
  | literal word => rfl
  | reference name known =>
      rw [unsupported, if_pos]
      simpa using known
  | grouping _ inner => exact inner
  | negation isMinus _ right => simp [unsupported, right, isMinus]
  | binary hasCode _ _ left right => simp [unsupported, left, right, hasCode]

theorem arithmetic_fold_grouping {inner : Expr} (arithmetic : inner.Arithmetic declared) :
    (foldGrouping inner).Arithmetic declared := by
  unfold foldGrouping
  split
  · exact arithmetic
  · exact .grouping arithmetic

theorem arithmetic_fold_unary {op : Token} {right : Expr} (isMinus : op.kind = .minus)
    (arithmetic : right.Arithmetic declared) : (foldUnary op right).Arithmetic declared := by
  unfold foldUnary
  split
  · rw [if_pos isMinus]
    exact .literal _
  · exact .negation isMinus arithmetic

theorem arithmetic_fold_binary {op : Token} {left right : Expr}
    (hasCode : isArithmetic op.kind = true) (first : left.Arithmetic declared)
    (second : right.Arithmetic declared) : (foldBinary left op right).Arithmetic declared := by
  unfold foldBinary
  split
  · split
    · exact .literal _
    · exact .binary hasCode first second
  · exact .binary hasCode first second

theorem arithmetic_fold {expr : Expr} (arithmetic : expr.Arithmetic declared) :
    expr.fold.Arithmetic declared := by
  induction arithmetic with
  | literal word => exact .literal word
  | reference name known => exact .reference name known
  | grouping _ inner => exact arithmetic_fold_grouping inner
  | negation isMinus _ right => exact arithmetic_fold_unary isMinus right
  | binary hasCode _ _ left right => exact arithmetic_fold_binary hasCode left right

end Expr

section Data

theorem visible_items_from {label : Bytes → Bytes} {contents : Bytes → Contents} (number : Nat)
    (names : List Bytes) :
    (itemsFrom label contents number names).map DataItem.visible =
      names.map fun name => (label name, contents name) := by
  induction names generalizing number with
  | nil => rfl
  | cons name names induction =>
      rw [itemsFrom, List.map_cons, List.map_cons, induction]
      rfl

theorem visible_constants (code other : List Line) (names : List Bytes) :
    (generatedProgram code names).constants.map DataItem.visible =
      (generatedProgram other names).constants.map DataItem.visible := by
  simp only [generatedProgram, formatItems, List.map_cons, visible_items_from, DataItem.visible]

theorem visible_reservations (code other : List Line) (names : List Bytes) :
    (generatedProgram code names).reservations.map DataItem.visible =
      (generatedProgram other names).reservations.map DataItem.visible := by
  simp only [generatedProgram, cellItems, visible_items_from]

end Data

section Programs

variable {options other : CompileOptions} {source : Bytes} {first : Output}
variable {machine : MachineOptions} {loaded : Loaded}

theorem target_names (tree : Expr) : (options.target tree).names = tree.names := by
  unfold CompileOptions.target
  split
  · exact Expr.names_fold tree
  · rfl

theorem target_arithmetic (options : CompileOptions) {tree : Expr} {declared : List Bytes}
    (arithmetic : tree.Arithmetic declared) : (options.target tree).Arithmetic declared := by
  unfold CompileOptions.target
  split
  · exact Expr.arithmetic_fold arithmetic
  · exact arithmetic

theorem tree_arithmetic (compiled : compile options source = .ok first) :
    first.tree.Arithmetic first.variableNames := by
  have arithmetic := compiled_arithmetic compiled
  obtain ⟨_, folded, _⟩ := compile_cases compiled
  rw [folded, CompileOptions.target] at arithmetic
  split at arithmetic
  · exact Expr.arithmetic_of_fold arithmetic
  · exact arithmetic

/-- What compiles and loads with some options does so with others of the same character set. -/
theorem load_again (lawful : options.charsets.Lawful)
    (charsets : other.charsets = options.charsets) (encoding : other.encoding = options.encoding)
    (compiled : compile options source = .ok first)
    (load : loadListing first.assembly.bytes machine = .ok loaded) :
    ∃ output otherLoaded, compile other source = .ok output ∧ output.tree = first.tree ∧
      output.folded = other.target first.tree ∧ output.variableNames = first.variableNames ∧
      loadListing output.assembly.bytes machine = .ok otherLoaded ∧
      otherLoaded.image = { loaded.image with program := otherLoaded.image.program } ∧
      otherLoaded.machine.toCore = loaded.machine.toCore := by
  obtain ⟨hasTree, folded, names, generated⟩ := compile_cases compiled
  obtain ⟨identifiers, distinct⟩ := compiled_names compiled
  obtain ⟨program, read, _⟩ := load_listing_cases load
  obtain ⟨_, charset, resolved, encoded, _⟩ := generate_cases generated
  have keeps := keeps_plain_of_read (lawful.sets resolved) identifiers
    (compiled_arithmetic compiled) encoded read
  have arithmetic := target_arithmetic other (tree_arithmetic compiled)
  have sameNames : (other.target first.tree).names = first.variableNames := by
    rw [names, folded, target_names, target_names]
  rw [← charsets, ← encoding] at resolved
  have again := generate_of_keeps_plain identifiers (Expr.supported_of_arithmetic arithmetic)
    resolved keeps
  have readAgain := @read_listing_text _ _ other.toCodegenOptions identifiers distinct arithmetic
  rw [← sameNames] at again
  have compiledAgain := compile_of_tree hasTree again
  rw [sameNames] at compiledAgain
  obtain ⟨otherLoaded, loadAgain, image, core⟩ :=
    load_alike (load_compiled lawful compiled (.inl rfl) load) (visible_constants _
      (programCode other.toCodegenOptions first.variableNames (other.target first.tree)) _)
    (visible_reservations _ _ _)
  refine ⟨_, otherLoaded, compiledAgain, rfl, rfl, rfl, ?_, ?_, core⟩
  · rw [loadListing, readAgain]
    exact loadAgain
  · rw [image]

/-- In every set with the characters of ASCII, a source compiles to the same text. -/
theorem text_again {name listing : Bytes} {charset : Charset} (lawful : options.charsets.Lawful)
    (resolved : options.charsets.resolve name = .ok charset) (ascii : charset.EncodesAscii)
    (compiled : compile options source = .ok first)
    (held : first.assembly.Holds options.charsets listing)
    (load : loadListing listing machine = .ok loaded) :
    ∃ output, compile { options with encoding := name } source = .ok output ∧
      output.folded = first.folded ∧ output.variableNames = first.variableNames ∧
      output.assembly.text options.charsets = .ok listing := by
  obtain ⟨hasTree, folded, names, generated⟩ := compile_cases compiled
  obtain ⟨identifiers, _⟩ := compiled_names compiled
  obtain ⟨supported, _⟩ := generate_cases generated
  obtain ⟨_, read, _⟩ := load_listing_cases load
  have plain :=
    listing_text_plain options.toCodegenOptions identifiers (compiled_arithmetic compiled)
  obtain ⟨bytes, encoded⟩ := ascii _ plain.ascii
  let again : CompileOptions := { options with encoding := name }
  have lawfulAgain : again.charsets.Lawful := lawful
  have generatedAgain : generate again.toCodegenOptions first.variableNames first.folded =
      .ok ⟨bytes, charset.canonical⟩ := by
    have sameText : listingText again.toCodegenOptions first.variableNames first.folded =
        listingText options.toCodegenOptions first.variableNames first.folded := rfl
    have found : again.charsets.resolve again.encoding = .ok charset := resolved
    simp only [generate, supported, found, sameText, encoded]
  have text := text_of_generated lawfulAgain identifiers generatedAgain
  rw [listing_of_read lawful identifiers generated held read]
  rw [names, folded] at generatedAgain
  refine ⟨_, compile_of_tree hasTree generatedAgain, folded.symm, ?_, text⟩
  rw [names, folded]
  rfl

end Programs

end ExprCompiler

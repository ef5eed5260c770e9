import ExprCompiler.Machine.Routine
import ExprCompiler.Proofs.Codegen.Execute
import ExprCompiler.Proofs.Codegen.Names

/-!
What a generated program says and asks. Before the code of the tree it prompts for every variable
and reads a number into its cell; after it the word on the stack is printed and dropped.
-/

namespace ExprCompiler

-- Stores are told by their lemmas; comparing them byte by byte is slow.
attribute [local irreducible] Memory.store

/-- A text stands in memory under a label, with a zero behind it, below a given address. -/
def TextAt (image : Image) (limit : Nat) (memory : Memory) (label text : Bytes) : Prop :=
  ∃ address, image.symbols.find? label = some address ∧ address.toNat + text.length < limit ∧
    memory.Holds address.toNat (text ++ [0])

theorem TextAt.congr {image : Image} {limit : Nat} {memory other : Memory} {label text : Bytes}
    (stands : TextAt image limit memory label text)
    (same : ∀ index < limit, other.byte index = memory.byte index) :
    TextAt image limit other label text := by
  obtain ⟨address, placed, below, holds⟩ := stands
  refine ⟨address, placed, below, holds.congr ?_⟩
  intro place _ inside
  rw [List.length_append, List.length_singleton] at inside
  exact same place (by omega)

section Routines

variable {image : Image} {core : Core}

theorem perform_push_label {label : Bytes} {address : Word}
    (placed : image.symbols.find? label = some address) (room : 4 ≤ core.top)
    (inside : core.top ≤ core.memory.size) :
    image.perform (Line.pushLabel label) core = ⟨core.pushed address, none⟩ := by
  have loaded : image.load core (.label label) = .ok address := by
    simp only [Image.load, Image.resolve, placed]
  exact perform_push loaded room inside

theorem perform_print (standard : image.routines = standardRoutines) :
    image.perform (Line.call (utf8 "printf")) core = printRoutine core := by
  change image.callRoutine (utf8 "printf") core = _
  rw [Image.callRoutine, standard]
  rfl

theorem perform_scan (standard : image.routines = standardRoutines) :
    image.perform (Line.call (utf8 "scanf")) core = scanRoutine core := by
  change image.callRoutine (utf8 "scanf") core = _
  rw [Image.callRoutine, standard]
  rfl

theorem perform_release (bytes : Int) :
    image.perform (Line.release bytes) core =
      ⟨core.set .esp (core.get .esp + BitVec.ofInt 32 bytes), none⟩ := rfl

theorem argument_top (inside : core.top + 4 ≤ core.memory.size) :
    core.argument 0 = .ok (core.memory.load core.registers.esp) := by
  have holds : core.memory.holdsWord core.registers.esp = true := by
    simp only [Memory.holdsWord, decide_eq_true_eq]
    exact inside
  have here : core.get .esp + BitVec.ofNat 32 (4 * 0) = core.registers.esp := BitVec.add_zero _
  rw [Core.argument, here, Core.read, if_pos holds]

theorem argument_next (inside : core.top + 8 ≤ core.memory.size)
    (narrow : core.top + 4 < 0x100000000) :
    core.argument 1 = .ok (core.memory.load (core.registers.esp + 4)) := by
  have next : (core.registers.esp + 4).toNat = core.top + 4 := by
    unfold Core.top at narrow ⊢
    bv_omega
  have holds : core.memory.holdsWord (core.registers.esp + 4) = true := by
    simp only [Memory.holdsWord, decide_eq_true_eq, next]
    omega
  have here : core.get .esp + BitVec.ofNat 32 (4 * 1) = core.registers.esp + 4 := rfl
  rw [Core.argument, here, Core.read, if_pos holds]

theorem two_arguments {floor : Nat} (room : floor + 8 ≤ core.top)
    (inside : core.top ≤ core.memory.size) (lower upper : Word) :
    Keeps floor core ((core.pushed lower).pushed upper) ∧
      ((core.pushed lower).pushed upper).argument 0 = .ok upper ∧
      ((core.pushed lower).pushed upper).argument 1 = .ok lower := by
  have first := @Keeps.pushed floor core (by omega) inside lower
  have firstTop := @Core.top_pushed core (by omega) lower
  have firstInside : (core.pushed lower).top ≤ (core.pushed lower).memory.size := by
    rw [first.size]
    omega
  have second := @Keeps.pushed floor (core.pushed lower) (by omega) firstInside upper
  have secondTop := @Core.top_pushed (core.pushed lower) (by omega) upper
  have both := first.trans second (by omega)
  have bound : core.top < 0x100000000 := core.registers.esp.isLt
  refine ⟨both, ?_, ?_⟩
  · rw [argument_top (by rw [both.size]; omega)]
    exact congrArg Except.ok (Core.load_pushed (by omega) firstInside upper)
  · have next : ((core.pushed lower).pushed upper).registers.esp + 4 =
        (core.pushed lower).registers.esp := BitVec.sub_add_cancel _ _
    rw [argument_next (by rw [both.size]; omega) (by omega), next, load_top second]
    exact congrArg Except.ok (Core.load_pushed (by omega) inside lower)

theorem format_plain {argument : Nat → Except Fault Word} (next : Nat) {text : Bytes}
    (plain : ∀ byte ∈ text, byte ≠ 0x25) : formatWith argument next text = .ok text := by
  induction text with
  | nil => rfl
  | cons byte rest induction =>
      have here := plain byte (by simp)
      have later := induction fun other member => plain other (by simp [member])
      rw [formatWith, later]
      · rfl
      · intro letter others same _
        exact here same

theorem text_stands {floor limit : Nat} {label text : Bytes}
    (stands : TextAt image limit core.memory label text) (visible : ∀ value ∈ text, value ≠ 0)
    (low : limit ≤ floor) (inside : floor ≤ core.memory.size) :
    ∃ address, image.symbols.find? label = some address ∧
      ∀ after, Keeps floor core after → after.readText address = .ok text := by
  obtain ⟨address, placed, below, holds⟩ := stands
  refine ⟨address, placed, ?_⟩
  intro after kept
  have stays : after.memory.Holds address.toNat (text ++ [0]) := by
    apply holds.congr
    intro place _ within
    rw [List.length_append, List.length_singleton] at within
    exact kept.data place (by omega)
  have found := Memory.text_of_holds stays visible (by rw [kept.size]; omega)
  rw [Core.readText, found]

theorem print_effect {address : Word} {format text : Bytes}
    (top : core.argument 0 = .ok address) (found : core.readText address = .ok format)
    (filled : formatWith core.argument 1 format = .ok text) :
    printRoutine core =
      ⟨{ core with
          registers := { core.registers with eax := BitVec.ofNat 32 text.length }
          written := text :: core.written }, none⟩ := by
  unfold printRoutine
  simp only [top, found, filled, bind, Except.bind]
  rfl

theorem perform_say {floor limit : Nat} {label text : Bytes}
    (standard : image.routines = standardRoutines)
    (stands : TextAt image limit core.memory label text)
    (plain : ∀ value ∈ text, value ≠ 0 ∧ value ≠ 0x25) (low : limit ≤ floor)
    (room : floor + 4 ≤ core.top) (inside : core.top ≤ core.memory.size) :
    ∃ address, image.performAll [Line.pushLabel label, Line.call (utf8 "printf"), Line.release 4]
        core =
      ⟨{ core with
          registers := { core.registers with eax := BitVec.ofNat 32 text.length }
          memory := (core.pushed address).memory
          written := text :: core.written }, none⟩ := by
  obtain ⟨address, placed, found⟩ := text_stands stands (fun value member => (plain value member).1)
    low (by omega)
  refine ⟨address, ?_⟩
  have pushed := Keeps.pushed room inside address
  have pushedTop := @Core.top_pushed core (by omega) address
  have loaded := Core.load_pushed (by omega) inside address
  have argument := @argument_top (core.pushed address) (by rw [pushed.size]; omega)
  rw [loaded] at argument
  have filled := @format_plain (core.pushed address).argument 1 text
    fun value member => (plain value member).2
  have printed := print_effect argument (found _ pushed) filled
  have back : core.registers.esp - 4#32 + 4#32 = core.registers.esp := BitVec.sub_add_cancel _ _
  rw [Image.perform_all_cons (perform_push_label placed (by omega) inside),
    Image.perform_all_cons ((perform_print standard).trans printed)]
  simp [Image.performAll, Effect.andThen, perform_release, Core.set, Registers.set, Core.get, Registers.get, Core.pushed, back]

/-- The effect of input by the only format that programs read with. -/
theorem scan_effect {address cell : Word} (top : core.argument 0 = .ok address)
    (found : core.readText address = .ok (utf8 "%d")) (next : core.argument 1 = .ok cell)
    (holds : core.memory.holdsWord cell = true) :
    scanRoutine core =
      match scanWord core.unread with
      | (.error problem, rest) => ⟨{ core with unread := rest }, some (.input problem)⟩
      | (.ok value, rest) =>
          ⟨{ core with
              registers := { core.registers with eax := 1 }
              memory := core.memory.store cell value
              unread := rest }, none⟩ := by
  have format : utf8 "%d" = [0x25, 0x64] := rfl
  have letter : isNumberLetter 0x64 = true := rfl
  unfold scanRoutine
  simp only [top, found, bind, Except.bind, format, scanWith, letter, if_true, scanArgument, next]
  cases scan : scanWord core.unread with
  | mk result rest =>
      cases result with
      | error problem => rfl
      | ok value => simp only [Core.write, holds, if_true, Core.set, Registers.set]; rfl

end Routines

section Questions

variable {image : Image} {core : Core}

/-- How a scan that may fail ends. -/
def inputFault : Except ScanError Word → Option Fault
  | .ok _ => none
  | .error problem => some (.input problem)

/-- What reading a number into a cell leaves behind, with some texts written before. -/
structure Asks (floor : Nat) (cell : Word) (said : List Bytes) (core : Core) (effect : Effect) :
    Prop where
  fault : effect.fault = inputFault (scanWord core.unread).1
  unread : effect.core.unread = (scanWord core.unread).2
  written : effect.core.written = said ++ core.written
  size : effect.core.memory.size = core.memory.size
  data : ∀ index < floor, index < cell.toNat ∨ cell.toNat + 4 ≤ index →
    effect.core.memory.byte index = core.memory.byte index
  esp : ∀ value, (scanWord core.unread).1 = .ok value →
    effect.core.registers.esp = core.registers.esp
  word : ∀ value, (scanWord core.unread).1 = .ok value → effect.core.memory.load cell = value

def askLines (name : Bytes) : List Line :=
  [Line.pushLabel (variableLabel name), Line.pushLabel (utf8 "read_format"),
    Line.call (utf8 "scanf"), Line.release 8]

section Scanned

variable {floor : Nat} {cell : Word} {ready : Core} {rest : Bytes}

theorem asks_failed {problem : ScanError} (kept : Keeps floor core ready)
    (scan : scanWord core.unread = (.error problem, rest)) :
    Asks floor cell [] core ⟨{ ready with unread := rest }, some (.input problem)⟩ where
  fault := by rw [scan, inputFault]
  unread := by rw [scan]
  written := kept.written
  size := kept.size
  data := fun index low _ => kept.data index low
  esp := by
    intro value same
    rw [scan] at same
    cases same
  word := by
    intro value same
    rw [scan] at same
    cases same

theorem asks_stored {value : Word} {stored : Memory} (kept : Keeps floor core ready)
    (size : stored.size = ready.memory.size)
    (other : ∀ index, index < cell.toNat ∨ cell.toNat + 4 ≤ index →
      stored.byte index = ready.memory.byte index)
    (loaded : stored.load cell = value) (back : ready.registers.esp + 8 = core.registers.esp)
    (scan : scanWord core.unread = (.ok value, rest)) :
    Asks floor cell [] core
      ⟨{ ready with
          registers := { ready.registers with eax := 1, esp := ready.registers.esp + 8 }
          memory := stored
          unread := rest }, none⟩ where
  fault := by rw [scan, inputFault]
  unread := by rw [scan]
  written := kept.written
  size := size.trans kept.size
  data := fun index low outside => (other index outside).trans (kept.data index low)
  esp := fun _ _ => back
  word := by
    intro found same
    rw [scan] at same
    cases same
    exact loaded

end Scanned

theorem asks_lines {floor limit : Nat} {name : Bytes} {cell : Word}
    (standard : image.routines = standardRoutines)
    (stands : TextAt image limit core.memory (utf8 "read_format") (utf8 "%d"))
    (placed : image.symbols.find? (variableLabel name) = some cell) (low : limit ≤ floor)
    (below : cell.toNat + 4 ≤ floor) (room : floor + 8 ≤ core.top)
    (inside : core.top ≤ core.memory.size) :
    Asks floor cell [] core (image.performAll (askLines name) core) := by
  obtain ⟨format, formatPlaced, found⟩ := text_stands stands (by decide) low (by omega)
  obtain ⟨kept, top, next⟩ := two_arguments room inside cell format
  have holds : ((core.pushed cell).pushed format).memory.holdsWord cell = true := by
    simp only [Memory.holdsWord, decide_eq_true_eq, kept.size]
    omega
  have scanned := scan_effect top (found _ kept) next holds
  have performed : image.performAll (askLines name) core =
      (scanRoutine ((core.pushed cell).pushed format)).andThen fun after =>
        ⟨after.set .esp (after.get .esp + 8), none⟩ := by
    have firstTop := @Core.top_pushed core (by omega) cell
    have second := @perform_push_label image (core.pushed cell) _ _ formatPlaced (by omega)
      (by rw [Core.size_pushed]; omega)
    rw [askLines, Image.perform_all_cons (perform_push_label placed (by omega) inside),
      Image.perform_all_cons second, Image.performAll, perform_scan standard]
    exact congrArg (Effect.andThen _) (funext fun after => rfl)
  have back : ((core.pushed cell).pushed format).registers.esp + 8 = core.registers.esp := by
    change core.registers.esp - 4 - 4 + 8 = _
    bv_omega
  rw [performed, scanned]
  generalize (core.pushed cell).pushed format = ready at kept holds back
  rw [kept.unread]
  cases scan : scanWord core.unread with
  | mk result rest =>
      cases result with
      | error problem =>
          simp only [Effect.andThen]
          exact asks_failed kept scan
      | ok value =>
          simp only [Effect.andThen, Core.set, Core.get, Registers.set, Registers.get]
          exact asks_stored kept (Memory.size_store cell value)
            (fun _ outside => Memory.byte_store_other value holds outside)
            (Memory.load_store value holds) back scan

def promptText (name : Bytes) : Bytes := name ++ utf8 " = "

theorem prompt_text_plain {name : Bytes} (identifier : IsIdentifier name) :
    ∀ value ∈ promptText name, value ≠ 0 ∧ value ≠ 0x25 := by
  have part := @forall_byte (fun value => !Piece.isWordPart value || (value != 0 && value != 0x25))
    (by decide +kernel)
  intro value member
  rcases List.mem_append.mp member with inName | inRest
  · have here := part value
    rw [identifier.parts value inName] at here
    simpa using here
  · have rest : ∀ value ∈ utf8 " = ", value ≠ 0 ∧ value ≠ 0x25 := by decide
    exact rest value inRest

/-- The texts of a program over some variables, all of them below an address. -/
structure Texts (image : Image) (names : List Bytes) (limit : Nat) (memory : Memory) : Prop where
  readFormat : TextAt image limit memory (utf8 "read_format") (utf8 "%d")
  writeFormat : TextAt image limit memory (utf8 "write_format") (utf8 "%d" ++ [10])
  prompts : ∀ name ∈ names, TextAt image limit memory (promptLabel name) (promptText name)

theorem Texts.congr {names : List Bytes} {limit : Nat} {memory other : Memory}
    (texts : Texts image names limit memory)
    (same : ∀ index < limit, other.byte index = memory.byte index) :
    Texts image names limit other where
  readFormat := texts.readFormat.congr same
  writeFormat := texts.writeFormat.congr same
  prompts := fun name member => (texts.prompts name member).congr same

def CellAt (image : Image) (name : Bytes) (address : Word) : Prop :=
  image.symbols.find? (variableLabel name) = some address

/-- A cell ends before another one starts. -/
def CellBefore (image : Image) (earlier later : Bytes) : Prop :=
  ∀ first second, image.symbols.find? earlier = some first →
    image.symbols.find? later = some second → first.toNat + 4 ≤ second.toNat

/-- The cells of some variables in order, between the texts and the end of the data. -/
structure Places (image : Image) (names : List Bytes) (limit floor : Nat) : Prop where
  low : limit ≤ floor
  cell : ∀ name ∈ names, ∃ address, CellAt image name address ∧ limit ≤ address.toNat ∧
    address.toNat + 4 ≤ floor
  ordered : names.Pairwise fun earlier later =>
    CellBefore image (variableLabel earlier) (variableLabel later)

/-- The numbers that successive scans read, up to the first that fails. -/
structure Scanned where
  values : List Word
  problem : Option ScanError
  deriving DecidableEq, Repr

def scanWords : Nat → Bytes → Scanned
  | 0, _ => ⟨[], none⟩
  | count + 1, input =>
      match scanWord input with
      | (.error problem, _) => ⟨[], some problem⟩
      | (.ok value, rest) =>
          let later := scanWords count rest
          ⟨value :: later.values, later.problem⟩

theorem scan_words_failed {input rest : Bytes} {problem : ScanError} (count : Nat)
    (scan : scanWord input = (.error problem, rest)) :
    scanWords (count + 1) input = ⟨[], some problem⟩ := by
  rw [scanWords, scan]

theorem scan_words_more {input rest : Bytes} {value : Word} (count : Nat)
    (scan : scanWord input = (.ok value, rest)) :
    scanWords (count + 1) input =
      ⟨value :: (scanWords count rest).values, (scanWords count rest).problem⟩ := by
  rw [scanWords, scan]

structure Reads (image : Image) (floor : Nat) (names : List Bytes) (core : Core) (effect : Effect) :
    Prop where
  fault : effect.fault = (scanWords names.length core.unread).problem.map Fault.input
  written : effect.core.written =
    ((names.take ((scanWords names.length core.unread).values.length + 1)).map promptText).reverse ++
      core.written
  size : effect.core.memory.size = core.memory.size
  esp : effect.fault = none → effect.core.registers.esp = core.registers.esp
  data : ∀ index < floor, (∀ name ∈ names, ∀ address, CellAt image name address →
      index < address.toNat ∨ address.toNat + 4 ≤ index) →
    effect.core.memory.byte index = core.memory.byte index
  cells : ∀ pair ∈ names.zip (scanWords names.length core.unread).values, ∀ address,
    CellAt image pair.1 address → effect.core.memory.load address = pair.2

variable {limit floor : Nat}

theorem asks_read {name : Bytes} {cell : Word} (standard : image.routines = standardRoutines)
    (identifier : IsIdentifier name)
    (prompt : TextAt image limit core.memory (promptLabel name) (promptText name))
    (format : TextAt image limit core.memory (utf8 "read_format") (utf8 "%d"))
    (placed : CellAt image name cell) (low : limit ≤ floor) (below : cell.toNat + 4 ≤ floor)
    (room : floor + 8 ≤ core.top) (inside : core.top ≤ core.memory.size) :
    Asks floor cell [promptText name] core (image.performAll (readLines name) core) := by
  obtain ⟨address, said⟩ := @perform_say image core floor limit _ _ standard prompt
    (prompt_text_plain identifier) low (by omega) inside
  have pushed := @Keeps.pushed floor core (by omega) inside address
  have split : image.performAll (readLines name) core =
      (image.performAll [Line.pushLabel (promptLabel name), Line.call (utf8 "printf"),
        Line.release 4] core).andThen (image.performAll (askLines name)) :=
    image.perform_all_append [Line.pushLabel (promptLabel name), Line.call (utf8 "printf"),
      Line.release 4] (askLines name) core
  rw [split, said]
  have asks := @asks_lines image { core with
      registers := { core.registers with eax := BitVec.ofNat 32 (promptText name).length }
      memory := (core.pushed address).memory
      written := promptText name :: core.written } floor limit name cell standard
    (format.congr fun index below => pushed.data index (by omega)) placed low below room
    (by rw [pushed.size]; exact inside)
  refine ⟨asks.fault, asks.unread, asks.written, asks.size.trans pushed.size, ?_, asks.esp, asks.word⟩
  intro index below outside
  exact (asks.data index below outside).trans (pushed.data index below)

theorem Places.rest {name : Bytes} {names : List Bytes}
    (places : Places image (name :: names) limit floor) : Places image names limit floor where
  low := places.low
  cell := fun other member => places.cell other (by simp [member])
  ordered := (List.pairwise_cons.mp places.ordered).2

theorem Texts.rest {name : Bytes} {names : List Bytes} {memory : Memory}
    (texts : Texts image (name :: names) limit memory) : Texts image names limit memory where
  readFormat := texts.readFormat
  writeFormat := texts.writeFormat
  prompts := fun other member => texts.prompts other (by simp [member])

section First

variable {name : Bytes} {names : List Bytes} {cell : Word} {middle : Core} {rest : Bytes}

theorem reads_failed {problem : ScanError} (scan : scanWord core.unread = (.error problem, rest))
    (placed : CellAt image name cell)
    (asks : Asks floor cell [promptText name] core ⟨middle, some (.input problem)⟩) :
    Reads image floor (name :: names) core ⟨middle, some (.input problem)⟩ := by
  have failed := scan_words_failed names.length scan
  refine ⟨?_, ?_, asks.size, (fun quiet => nomatch quiet), ?_, ?_⟩
  · rw [List.length_cons, failed]
    rfl
  · rw [List.length_cons, failed]
    exact asks.written
  · intro index below outside
    exact asks.data index below (outside name (by simp) cell placed)
  · rw [List.length_cons, failed, List.zip_nil_right]
    exact fun _ member => nomatch member

/-- The cell of the first variable keeps its word while the others are read. -/
theorem reads_more {value : Word} {effect : Effect}
    (scan : scanWord core.unread = (.ok value, rest)) (placed : CellAt image name cell)
    (below : cell.toNat + 4 ≤ floor) (places : Places image (name :: names) limit floor)
    (asks : Asks floor cell [promptText name] core ⟨middle, none⟩)
    (later : Reads image floor names middle effect) :
    Reads image floor (name :: names) core effect := by
  have more := scan_words_more names.length scan
  have unread : middle.unread = rest := by
    rw [asks.unread, scan]
  obtain ⟨fault, written, size, esp, data, cells⟩ := later
  rw [unread] at fault written cells
  have ordered := (List.pairwise_cons.mp places.ordered).1
  -- The cells behind this one are apart from it, so what was read here is still there at the end.
  have kept : ∀ index, cell.toNat ≤ index → index < cell.toNat + 4 →
      effect.core.memory.byte index = middle.memory.byte index := by
    intro index lower upper
    apply data index (by omega)
    intro other member address otherPlaced
    have apart := ordered other member cell address placed otherPlaced
    omega
  have loaded : effect.core.memory.load cell = value :=
    (Memory.load_congr kept).trans (asks.word value (by rw [scan]))
  refine ⟨?_, ?_, size.trans asks.size, ?_, ?_, ?_⟩
  · rw [List.length_cons, more]
    exact fault
  · rw [List.length_cons, more, written, asks.written]
    simp
  · intro quiet
    exact (esp quiet).trans (asks.esp value (by rw [scan]))
  · intro index lower outside
    rw [data index lower fun other member => outside other (by simp [member])]
    exact asks.data index lower (outside name (by simp) cell placed)
  · rw [List.length_cons, more, List.zip_cons_cons]
    intro pair member address pairPlaced
    rcases List.mem_cons.mp member with rfl | inRest
    · rw [CellAt, placed] at pairPlaced
      cases pairPlaced
      exact loaded
    · exact cells pair inRest address pairPlaced

end First

/-- Every variable is asked for, until the input fails. -/
theorem reads_lines {names : List Bytes} (standard : image.routines = standardRoutines)
    (identifiers : ∀ name ∈ names, IsIdentifier name)
    (texts : Texts image names limit core.memory) (places : Places image names limit floor)
    (room : floor + 8 ≤ core.top) (inside : core.top ≤ core.memory.size) :
    Reads image floor names core (image.performAll (names.flatMap readLines) core) := by
  induction names generalizing core with
  | nil => exact ⟨rfl, rfl, rfl, fun _ => rfl, fun _ _ _ => rfl, fun _ member => nomatch member⟩
  | cons name names induction =>
      obtain ⟨cell, placed, above, below⟩ := places.cell name (by simp)
      have asks := asks_read standard (identifiers name (by simp)) (texts.prompts name (by simp))
        texts.readFormat placed places.low below room inside
      rw [List.flatMap_cons, Image.perform_all_append]
      have fault := asks.fault
      cases effect : image.performAll (readLines name) core with
      | mk middle ending =>
          rw [effect] at asks fault
          cases scan : scanWord core.unread with
          | mk result rest =>
              rw [scan] at fault
              cases result with
              | error problem =>
                  cases fault
                  exact reads_failed scan placed asks
              | ok value =>
                  cases fault
                  have esp := asks.esp value (by rw [scan])
                  have top : middle.top = core.top := congrArg BitVec.toNat esp
                  have stand := texts.rest.congr fun index low =>
                    asks.data index (Nat.lt_of_lt_of_le low places.low) (.inl (by omega))
                  have size : middle.memory.size = core.memory.size := asks.size
                  have later := @induction middle (fun other member => identifiers other (by simp [member]))
                    stand places.rest (by omega) (by omega)
                  exact reads_more scan placed below places asks later

end Questions

section Answer

variable {image : Image} {core : Core} {limit floor : Nat}

def answerLines : List Line :=
  [Line.pushLabel (utf8 "write_format"), Line.call (utf8 "printf"), Line.release 8,
    Line.op .mov [.register .eax, .immediate 0]]

theorem perform_answer (standard : image.routines = standardRoutines)
    (format : TextAt image limit core.memory (utf8 "write_format") (utf8 "%d" ++ [10]))
    (low : limit ≤ floor) (room : floor + 4 ≤ core.top) (inside : core.top + 4 ≤ core.memory.size) :
    ∃ address, image.performAll answerLines core =
      ⟨{ core with
          registers := { core.registers with eax := 0, esp := core.registers.esp + 4 }
          memory := (core.pushed address).memory
          written :=
            ((core.memory.load core.registers.esp).text ++ [10]) :: core.written }, none⟩ := by
  obtain ⟨address, placed, found⟩ := text_stands format (by decide) low (by omega)
  refine ⟨address, ?_⟩
  have pushed := @Keeps.pushed floor core room (by omega) address
  have pushedTop := @Core.top_pushed core (by omega) address
  have bound : core.top < 0x100000000 := core.registers.esp.isLt
  have first : (core.pushed address).argument 0 = .ok address := by
    rw [argument_top (by rw [pushed.size]; omega)]
    exact congrArg Except.ok (Core.load_pushed (by omega) (by omega) address)
  have second : (core.pushed address).argument 1 =
      .ok (core.memory.load core.registers.esp) := by
    have next : (core.pushed address).registers.esp + 4 = core.registers.esp :=
      BitVec.sub_add_cancel _ _
    rw [argument_next (by rw [pushed.size]; omega) (by omega), next, load_top pushed]
  have filled : formatWith (core.pushed address).argument 1 (utf8 "%d" ++ [10]) =
      .ok ((core.memory.load core.registers.esp).text ++ [10]) := by
    have text : utf8 "%d" ++ [10] = [0x25, 0x64, 10] := rfl
    have letter : isNumberLetter 0x64 = true := rfl
    have newline : formatWith (core.pushed address).argument (1 + 1) [10] = .ok [10] :=
      format_plain _ (by decide)
    simp only [text, formatWith, letter, if_true, second, newline, Except.map]
  have printed := print_effect first (found _ pushed) filled
  have back : core.registers.esp - 4#32 + 8#32 = core.registers.esp + 4#32 := by bv_omega
  rw [answerLines, Image.perform_all_cons (perform_push_label placed (by omega) (by omega)),
    Image.perform_all_cons ((perform_print standard).trans printed),
    Image.perform_all_cons (perform_release 8)]
  change (⟨_, none⟩ : Effect) = _
  simp [Core.set, Registers.set, Core.get, Registers.get, Core.pushed, back]

end Answer

end ExprCompiler

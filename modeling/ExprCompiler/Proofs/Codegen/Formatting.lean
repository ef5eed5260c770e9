import ExprCompiler.Proofs.Codegen.Unplaced
import ExprCompiler.Proofs.Token.Spacing

/-!
Formatting. A source may be set out anew, with other white space between its lexemes. Its tokens are
read again at other places, its statements and its errors stay the same up to these places, and no
place shows in what it compiles to.
-/

namespace ExprCompiler

variable {options : CompileOptions} {source other : Bytes} {output output' : Output}

theorem compiles_iff_moved (clean : (lex source).errors = []) (clean' : (lex other).errors = [])
    (same : (lex other).tokens.map Token.unplaced = (lex source).tokens.map Token.unplaced) :
    (∃ output, compile options other = .ok output) ↔
      ∃ output, compile options source = .ok output := by
  constructor
  · rintro ⟨output, compiled⟩
    obtain ⟨moved, again, _⟩ := compile_moved compiled clean same.symm
    exact ⟨moved, again⟩
  · rintro ⟨output, compiled⟩
    obtain ⟨moved, again, _⟩ := compile_moved compiled clean' same
    exact ⟨moved, again⟩

theorem outputs_agree (compiled : compile options source = .ok output)
    (compiled' : compile options other = .ok output')
    (same : (lex other).tokens.map Token.unplaced = (lex source).tokens.map Token.unplaced) :
    output'.assembly = output.assembly ∧ output'.variableNames = output.variableNames := by
  obtain ⟨hasTree, _⟩ := compile_cases compiled'
  obtain ⟨moved, again, names, assembly, _⟩ := compile_moved compiled hasTree.lexed same
  rw [compiled'] at again
  obtain rfl := Except.ok.inj again
  exact ⟨assembly, names⟩

/-- Formatting does not matter. However the lexemes of a source without lexical errors are set out,
the text has the same tokens, the same statements and the same errors up to their places, it
compiles under the same options, and it compiles to the same listing of the same variables. -/
theorem formatting_immaterial (source : Bytes) (clean : (lex source).errors = [])
    (layout : Layout (lexemes source)) :
    (lex layout.text).errors = [] ∧
      (lex layout.text).tokens.map Token.unplaced = (lex source).tokens.map Token.unplaced ∧
      (parse (lex layout.text).tokens).unplaced = (parse (lex source).tokens).unplaced ∧
      ∀ options : CompileOptions,
        ((∃ output, compile options layout.text = .ok output) ↔
          ∃ output, compile options source = .ok output) ∧
        ∀ output output', compile options source = .ok output →
          compile options layout.text = .ok output' →
            output'.assembly = output.assembly ∧
              output'.variableNames = output.variableNames := by
  obtain ⟨clean', same⟩ := lex_layout layout
  refine ⟨clean', same, ?_, ?_⟩
  · rw [← Grammar.parse_unplaced, same, Grammar.parse_unplaced]
  · intro options
    refine ⟨compiles_iff_moved clean clean' same, ?_⟩
    intro output output' compiled compiled'
    exact outputs_agree compiled compiled' same

def productLayout : Layout (lexemes (utf8 "x1*(-20+y);")) where
  front := utf8 "\n "
  gaps := [utf8 "\r\n", utf8 " ", utf8 "\n", utf8 "\t", utf8 " ", utf8 " ", utf8 " ", utf8 "\t ", []]
  count := by decide +kernel
  whiteFront := by decide +kernel
  white := by decide +kernel
  apart := by decide +kernel

theorem product_set_out_anew :
    productLayout.text = utf8 "\n x1\r\n* (\n-\t20 + y )\t ;" ∧
      ∃ output output', compile {} (utf8 "x1*(-20+y);") = .ok output ∧
        compile {} productLayout.text = .ok output' ∧ output'.assembly = output.assembly ∧
        output'.variableNames = output.variableNames := by
  obtain ⟨_, _, _, compiles⟩ :=
    formatting_immaterial (utf8 "x1*(-20+y);") (by decide +kernel) productLayout
  have succeeds : (compile {} (utf8 "x1*(-20+y);")).isOk = true := by decide +kernel
  cases compiled : compile {} (utf8 "x1*(-20+y);") with
  | error error =>
      rw [compiled] at succeeds
      cases succeeds
  | ok output =>
      obtain ⟨output', compiled'⟩ := (compiles {}).1.mpr ⟨output, compiled⟩
      obtain ⟨assembly, names⟩ := (compiles {}).2 output output' compiled compiled'
      exact ⟨by decide +kernel, output, output', rfl, compiled', assembly, names⟩

end ExprCompiler

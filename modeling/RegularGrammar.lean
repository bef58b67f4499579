import RegularGrammar.Scalar
import RegularGrammar.CharRange
import RegularGrammar.CharClass
import RegularGrammar.CharClass.Lemmas
import RegularGrammar.Regex
import RegularGrammar.Unicode.Tables
import RegularGrammar.Unicode.Properties
import RegularGrammar.Dialect
import RegularGrammar.Regex.Pattern
import RegularGrammar.Source.Token
import RegularGrammar.Source.Cursor
import RegularGrammar.Source.Quotation
import RegularGrammar.Source.Items
import RegularGrammar.Expr
import RegularGrammar.Grammar
import RegularGrammar.Grammar.ParseError
import RegularGrammar.Expr.Draft
import RegularGrammar.Grammar.Reading
import RegularGrammar.Grammar.Flaw
import RegularGrammar.Grammar.Expansion
import RegularGrammar.Regex.Meaning
import RegularGrammar.Grammar.Language
import RegularGrammar.Regex.Matching
import RegularGrammar.Regex.Reading
import RegularGrammar.CommandLine.Session
import RegularGrammar.CommandLine.Options
import RegularGrammar.CommandLine.Run
import RegularGrammar.Main
import RegularGrammar.Proofs.Regex.Repeats
import RegularGrammar.Proofs.Regex.Recognition
import RegularGrammar.Proofs.Grammar.Expansion
import RegularGrammar.Proofs.Grammar.Language
import RegularGrammar.Proofs.Grammar.Regularity
import RegularGrammar.Proofs.Text.Separator
import RegularGrammar.Proofs.Pattern.Spelling
import RegularGrammar.Proofs.Pattern.Items
import RegularGrammar.Proofs.Pattern.Unambiguity
import RegularGrammar.Proofs.CharClass.Sweep
import RegularGrammar.Proofs.CharClass.Built
import RegularGrammar.Proofs.CharClass.Union
import RegularGrammar.Proofs.CharClass.Complement
import RegularGrammar.Proofs.Pattern.Printing
import RegularGrammar.Proofs.Source.Words
import RegularGrammar.Proofs.Source.Gap
import RegularGrammar.Proofs.Source.Lexeme
import RegularGrammar.Proofs.Source.Tiling
import RegularGrammar.Proofs.Grammar.Phrase
import RegularGrammar.Proofs.Grammar.Shape
import RegularGrammar.Proofs.Expr.Draft
import RegularGrammar.Proofs.Grammar.Reading
import RegularGrammar.Proofs.Grammar.Refusal
import RegularGrammar.Proofs.Grammar.Writing
import RegularGrammar.Proofs.Grammar.Flaw
import RegularGrammar.Proofs.Grammar.Unfolding
import RegularGrammar.Proofs.Grammar.Irregularity
import RegularGrammar.Proofs.Grammar.Walk
import RegularGrammar.Proofs.Grammar.Stack
import RegularGrammar.Proofs.Grammar.Choice
import RegularGrammar.Proofs.Grammar.Dependence
import RegularGrammar.Proofs.Grammar.NormalForm
import RegularGrammar.Proofs.Grammar.Defect
import RegularGrammar.Proofs.Grammar.Cycle
import RegularGrammar.Proofs.Pattern.Visible
import RegularGrammar.Proofs.Pattern.Reading
import RegularGrammar.Proofs.Regex.Matching
import RegularGrammar.Proofs.Grammar.Printing
import RegularGrammar.Proofs.CommandLine.Options
import RegularGrammar.Proofs.CommandLine.Run
import RegularGrammar.Proofs.Source.Extent
import RegularGrammar.Proofs.Source.LookAhead
import RegularGrammar.Proofs.Source.Literal
import RegularGrammar.Proofs.Source.Relocation
import RegularGrammar.Proofs.Grammar.Relocation
import RegularGrammar.Proofs.Grammar.Joining
import RegularGrammar.Proofs.Pattern.ClassBody
import RegularGrammar.Proofs.Source.Scan.Basic
import RegularGrammar.Proofs.Source.Scan.Gap
import RegularGrammar.Proofs.Source.Scan.Items
import RegularGrammar.Proofs.Grammar.Descent.Production

import TypedTemplate.Cache.Session
import TypedTemplate.Template.Engine
import TypedTemplate.Code.Emitter
import TypedTemplate.Model.Field
import TypedTemplate.Token.Lexer
import TypedTemplate.Proofs.Compile.Correct
import TypedTemplate.Proofs.Compile.Level
import TypedTemplate.Proofs.Compile.Report
import TypedTemplate.Proofs.Grammar.Phrase
import TypedTemplate.Proofs.Grammar.Yield
import TypedTemplate.Proofs.Grammar.Climb
import TypedTemplate.Proofs.Token.Lexeme
import TypedTemplate.Proofs.Grammar.Expression
import TypedTemplate.Proofs.Grammar.Halts
import TypedTemplate.Proofs.Token.Cut
import TypedTemplate.Proofs.Token.Separator
import TypedTemplate.Proofs.Grammar.Taken
import TypedTemplate.Proofs.Token.TypeName
import TypedTemplate.Proofs.Grammar.Opening
import TypedTemplate.Proofs.Compile.Declaration
import TypedTemplate.Proofs.Template.Generated
import TypedTemplate.Proofs.Template.Entry
import TypedTemplate.Proofs.Template.Body
import TypedTemplate.Proofs.Grammar.Takes
import TypedTemplate.Proofs.Template.Hole
import TypedTemplate.Proofs.Template.Written
import TypedTemplate.Proofs.Compile.Budget
import TypedTemplate.Proofs.Template.Filled
import TypedTemplate.Proofs.Template.Compiled
import TypedTemplate.Proofs.Cache.Entry
import TypedTemplate.Proofs.Cache.Lawful
import TypedTemplate.Proofs.Template.Session
import TypedTemplate.Proofs.Template.Reach
import TypedTemplate.Proofs.Template.Render
import TypedTemplate.Proofs.Compile.Agreement
import TypedTemplate.Proofs.Token.Stretch
import TypedTemplate.Proofs.Token.Shift
import TypedTemplate.Proofs.Grammar.Shift
import TypedTemplate.Proofs.Interpolation.Shift
import TypedTemplate.Proofs.Interpolation.Enclosed
import TypedTemplate.Proofs.Interpolation.Nested
import TypedTemplate.Proofs.Interpolation.Nesting
import TypedTemplate.Proofs.Cache.Kept
import TypedTemplate.Proofs.Template.Shared
import TypedTemplate.Proofs.Code.WellFormed
import TypedTemplate.Proofs.Compile.Formed
import TypedTemplate.Proofs.Compile.Chunk
import TypedTemplate.Proofs.Compile.Complete
import TypedTemplate.Proofs.Machine.Unchecked
import TypedTemplate.Proofs.Compile.Settled
import TypedTemplate.Proofs.Compile.Unchecked
import TypedTemplate.Proofs.Compile.Overflow
import TypedTemplate.Proofs.Template.TypeText
import TypedTemplate.Proofs.Template.Spelling
import TypedTemplate.Proofs.Template.Registered
import TypedTemplate.Proofs.Template.Spelled
import TypedTemplate.Proofs.Name.Enclosing
import TypedTemplate.Proofs.Typing.Registration
import TypedTemplate.Proofs.Typing.Closure
import TypedTemplate.Proofs.Typing.Refusal
import TypedTemplate.Proofs.Grammar.Local
import TypedTemplate.Proofs.Grammar.Symbol
import TypedTemplate.Proofs.Grammar.Spells
import TypedTemplate.Proofs.Grammar.Statements
import TypedTemplate.Proofs.Grammar.Declared
import TypedTemplate.Proofs.Grammar.Unit
import TypedTemplate.Proofs.Compile.Diagnostics
import TypedTemplate.Proofs.Name.Module
import TypedTemplate.Proofs.Template.Runs
import TypedTemplate.Proofs.Interpolation.Literal
import TypedTemplate.Proofs.Token.Literal
import TypedTemplate.Proofs.Template.TypeParse
import TypedTemplate.Proofs.Template.Synthesized
import TypedTemplate.Proofs.Operation.Arith
import TypedTemplate.Proofs.Code.History
import TypedTemplate.Proofs.Token.Read
import TypedTemplate.Proofs.Number.Zero
import TypedTemplate.Proofs.Grammar.Numerals
import TypedTemplate.Proofs.Compile.Floats
import TypedTemplate.Proofs.Compile.Folded
import TypedTemplate.Proofs.Interpolation.Exact
import TypedTemplate.Proofs.Name.Splitting
import TypedTemplate.Proofs.Template.Field
import TypedTemplate.Proofs.Code.Decoding
import TypedTemplate.Proofs.Interpolation.Agreement
import TypedTemplate.Proofs.Typing.Slots
import TypedTemplate.Proofs.Operation.Format
import TypedTemplate.Proofs.Token.Lookahead
import TypedTemplate.Proofs.Interpolation.Origin

import Wgsl.Module
import Wgsl.Proofs.Parentheses.Agree.Declaration
import Wgsl.Proofs.Spelling.ReadBack.Declaration
import Wgsl.Proofs.Spelling.ReadBack.Angles
import Wgsl.Proofs.Spelling.Written.Declaration
import Wgsl.Proofs.Discipline
import Wgsl.Proofs.InvalidTokens
import Wgsl.Proofs.Brackets.Grammar
import Wgsl.Proofs.Bitcast
import Wgsl.Proofs.Condition.Parenthesized
import Wgsl.Proofs.Concatenation
import Wgsl.Proofs.Indexed.Mark
import Wgsl.Proofs.Indexed.Machine
import Wgsl.Proofs.Indexed.Session
import Wgsl.Proofs.Indexed.Termination
import Wgsl.Proofs.Lexical.Lines
import Wgsl.Proofs.Lexical.Longest
import Wgsl.Proofs.Lexical.Number
import Wgsl.Proofs.Lexical.Walk
import Wgsl.Proofs.Precedence.Reading
import Wgsl.Proofs.Precedence.Tree
import Wgsl.Proofs.Relocation.Rule
import Wgsl.Proofs.Relocation.Grammar
import Wgsl.Proofs.Shape.Grammar
import Wgsl.Proofs.Redundant.Module
import Wgsl.Proofs.ErrorPlace
import Wgsl.Proofs.Speculation.Untried
import Wgsl.Proofs.NodeLocation
import Wgsl.Proofs.Speculation.CutShort
import Wgsl.Proofs.Strays.Module
import Wgsl.Proofs.Prefix.Module

import LoxScript.Main
import LoxScript.Proofs.CommandLine.Prompt
import LoxScript.Proofs.Evaluation.Blame
import LoxScript.Proofs.Evaluation.Enclosure
import LoxScript.Proofs.Evaluation.Equality
import LoxScript.Proofs.Evaluation.Forest
import LoxScript.Proofs.Evaluation.Jump
import LoxScript.Proofs.Evaluation.Names
import LoxScript.Proofs.Evaluation.NotANumber
import LoxScript.Proofs.Evaluation.Safety
import LoxScript.Proofs.Syntax.Beginning
import LoxScript.Proofs.Syntax.Misplaced
import LoxScript.Proofs.Syntax.Permissive
import LoxScript.Proofs.Syntax.PrefixText
import LoxScript.Proofs.Syntax.Recovery
import LoxScript.Proofs.Syntax.Resumption
import LoxScript.Proofs.Token.LongestMatch
import LoxScript.Proofs.Text.Position

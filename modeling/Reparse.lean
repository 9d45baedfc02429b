import Reparse.Document
import Reparse.Grammar.Word
import Reparse.Session
import Reparse.Proofs.Language.Repairs
import Reparse.Proofs.Lexeme.Local
import Reparse.Proofs.Lexeme.Path
import Reparse.Proofs.Run.Consumed
import Reparse.Proofs.Tree.Children
import Reparse.Proofs.Tree.Commuted
import Reparse.Proofs.Tree.Errors
import Reparse.Proofs.Tree.Gaps
import Reparse.Proofs.Tree.Legible
import Reparse.Proofs.Tree.Nested
import Reparse.Proofs.Tree.Order
import Reparse.Proofs.Tree.Starting
import Reparse.Proofs.Tree.Tokens
import Reparse.Proofs.Tree.Untouched

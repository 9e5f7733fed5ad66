import FalseLang.Main
import FalseLang.Proofs.Code.Lines
import FalseLang.Proofs.Code.Literals
import FalseLang.Proofs.Code.Refusal
import FalseLang.Proofs.Device.Delivery
import FalseLang.Proofs.Evaluation.Agreement
import FalseLang.Proofs.Machine.Blame
import FalseLang.Proofs.Machine.Characters
import FalseLang.Proofs.Machine.Erasure
import FalseLang.Proofs.Machine.Expression
import FalseLang.Proofs.Machine.Failure
import FalseLang.Proofs.Machine.Limit
import FalseLang.Proofs.Machine.Locality
import FalseLang.Proofs.Machine.Origin
import FalseLang.Proofs.Machine.Sink
import FalseLang.Proofs.Machine.Termination
import FalseLang.Proofs.Machine.Unrolling
import FalseLang.Proofs.Program.Counting
import FalseLang.Proofs.Program.Echo
import FalseLang.Proofs.Program.Remainder
import FalseLang.Proofs.Token.LongestMatch

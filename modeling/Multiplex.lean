import Multiplex.Peer
import Multiplex.Proofs.Executor.Inline
import Multiplex.Proofs.Executor.Service
import Multiplex.Proofs.Frame.Retention
import Multiplex.Proofs.Hpack.Coding
import Multiplex.Proofs.Outbox
import Multiplex.Proofs.Session.Answers
import Multiplex.Proofs.Session.Concluded
import Multiplex.Proofs.Session.Concurrency
import Multiplex.Proofs.Session.Consistency
import Multiplex.Proofs.Session.Crashes
import Multiplex.Proofs.Session.HeaderTables
import Multiplex.Proofs.Session.Heard
import Multiplex.Proofs.Session.Padding
import Multiplex.Proofs.Session.ServerPush
import Multiplex.Proofs.Session.Waiting
import Multiplex.Proofs.Stream.Credit
import Multiplex.Session.Run

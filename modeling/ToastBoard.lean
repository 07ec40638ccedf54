import ToastBoard.Main
import ToastBoard.Mailbox
import ToastBoard.Rehearsal.Session
import ToastBoard.Signal.Program
import ToastBoard.Worker.Program
import ToastBoard.Proofs.World
import ToastBoard.Proofs.Law
import ToastBoard.Proofs.Jobs
import ToastBoard.Proofs.Toasts
import ToastBoard.Proofs.Notices
import ToastBoard.Proofs.Agreement
import ToastBoard.Proofs.Books
import ToastBoard.Proofs.Order
import ToastBoard.Proofs.Owners
import ToastBoard.Proofs.Stations
import ToastBoard.Proofs.Moves
import ToastBoard.Proofs.Upkeep
import ToastBoard.Proofs.Hearing
import ToastBoard.Proofs.Registering
import ToastBoard.Proofs.Showing
import ToastBoard.Proofs.Deeds
import ToastBoard.Proofs.Releases
import ToastBoard.Proofs.Listening
import ToastBoard.Proofs.Coherence
import ToastBoard.Proofs.Traffic
import ToastBoard.Proofs.Interleaving
import ToastBoard.Proofs.LifeCycle
import ToastBoard.Proofs.Shutdown
import ToastBoard.Proofs.Schedules
import ToastBoard.Proofs.Newest
import ToastBoard.Proofs.Broadcast
import ToastBoard.Proofs.Delivery
import ToastBoard.Proofs.Firing
import ToastBoard.Proofs.Requests
import ToastBoard.Proofs.Names
import ToastBoard.Proofs.Refusals
import ToastBoard.Proofs.SelfRemoval
import ToastBoard.Proofs.Emission
import ToastBoard.Proofs.Deferral
import ToastBoard.Proofs.Legible
import ToastBoard.Proofs.Interruption
import ToastBoard.Proofs.Outcomes
import ToastBoard.Proofs.Handover
import ToastBoard.Proofs.Encodings
import ToastBoard.Proofs.Getters
import ToastBoard.Proofs.Precedence
import ToastBoard.Proofs.Invocations
import ToastBoard.Proofs.Drafts
import ToastBoard.Proofs.Appointments
import ToastBoard.Proofs.Conformity

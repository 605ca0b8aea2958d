import Larder.Text.Utf8.Lemmas
import Larder.Journal.Session
import Larder.Scenario
import Larder.Server
import Larder.Main
import Larder.Proofs.CrashPoints
import Larder.Proofs.RefusedChanges
import Larder.Proofs.ShelfOrder
import Larder.Proofs.UnwrittenReads
import Larder.Proofs.SweepsInUse
import Larder.Proofs.Expiry
import Larder.Proofs.ReplayPairs
import Larder.Proofs.Reloading
import Larder.Proofs.Accounts
import Larder.Proofs.UnseenSweeps
import Larder.Proofs.StrictLoading
import Larder.Proofs.RoundTrips
import Larder.Proofs.WholeSweeps
import Larder.Proofs.SweepLengths
import Larder.Proofs.WorkingSets
import Larder.Proofs.CorruptLines
import Larder.Proofs.RecordGrammar
import Larder.Proofs.FirstFaults
import Larder.Proofs.Tallies
import Larder.Proofs.ClosedStores
import Larder.Proofs.BackwardReads
import Larder.Proofs.Handles

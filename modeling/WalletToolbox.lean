import WalletToolbox.Laws.Abandonment
import WalletToolbox.Laws.Abortability
import WalletToolbox.Laws.Acting
import WalletToolbox.Laws.ArcSse
import WalletToolbox.Laws.Balance
import WalletToolbox.Laws.Brc39
import WalletToolbox.Laws.BuildBeef
import WalletToolbox.Laws.CacheKeys
import WalletToolbox.Laws.ChangeFunds
import WalletToolbox.Laws.ConcurrentCreate
import WalletToolbox.Laws.Coverage
import WalletToolbox.Laws.Delegation
import WalletToolbox.Laws.Error
import WalletToolbox.Laws.FailedCreate
import WalletToolbox.Laws.FailedOutputs
import WalletToolbox.Laws.Failover
import WalletToolbox.Laws.Failures
import WalletToolbox.Laws.Forgery
import WalletToolbox.Laws.InputOutpoints
import WalletToolbox.Laws.InternalizedCoins
import WalletToolbox.Laws.MerklePath
import WalletToolbox.Laws.Originators
import WalletToolbox.Laws.OutputTags
import WalletToolbox.Laws.Partition
import WalletToolbox.Laws.ProcessAbort
import WalletToolbox.Laws.Purge
import WalletToolbox.Laws.Reports
import WalletToolbox.Laws.Reprove
import WalletToolbox.Laws.Resume
import WalletToolbox.Laws.ReviewDoubleSpends
import WalletToolbox.Laws.ReviewProvenTxs
import WalletToolbox.Laws.ReviewStatus
import WalletToolbox.Laws.Revocation
import WalletToolbox.Laws.RootCache
import WalletToolbox.Laws.SendTimers
import WalletToolbox.Laws.Served
import WalletToolbox.Laws.SetActive
import WalletToolbox.Laws.Settings
import WalletToolbox.Laws.SpendingCap
import WalletToolbox.Laws.StreamedVerdicts
import WalletToolbox.Laws.Sweep
import WalletToolbox.Laws.UmpToken
import WalletToolbox.Laws.UnfailRun
import WalletToolbox.Laws.VerifyBeef
import WalletToolbox.Laws.Waiters
import WalletToolbox.Laws.Work

import StudyTech.Proof.Acknowledge
import StudyTech.Proof.Retry
import StudyTech.Proof.Batch
import StudyTech.Proof.Repeat
import StudyTech.Proof.Protocol
import StudyTech.Proof.RedisMutex
import StudyTech.Proof.RedisUnlock
import StudyTech.Proof.RedisRenew
import StudyTech.Proof.ZkOrder
import StudyTech.Proof.ZkWake
import StudyTech.Proof.ZkRefused
import StudyTech.Proof.ZkOwner
import StudyTech.Proof.Recipients
import StudyTech.Proof.Notice
import StudyTech.Proof.Canal
import StudyTech.Proof.Order
import StudyTech.Proof.Mqtt
import StudyTech.Proof.RmiBound
import StudyTech.Lib.Restrict
import StudyTech.Proof.ZkView
import StudyTech.Proof.ZkNames
import StudyTech.Proof.Dedup
import StudyTech.Proof.RedisTimed
import StudyTech.Proof.Lookup
import StudyTech.Proof.Connect
import StudyTech.Proof.Members
import StudyTech.Proof.RootPath
import StudyTech.Proof.RefreshUser
import StudyTech.Proof.MessageType
import StudyTech.Proof.MinPath
import StudyTech.Proof.PurchaseOrder
import StudyTech.Proof.Owner
import StudyTech.Proof.Resolution
import StudyTech.Proof.Paging
import StudyTech.Proof.CallerList
import StudyTech.Proof.FindByParam
import StudyTech.Proof.DynamicDataSource
import StudyTech.Proof.WorkbookSum
import StudyTech.Proof.ReadListener
import StudyTech.Proof.Comment
import StudyTech.Lib.Simulation
import StudyTech.Proof.GrabOrder
import StudyTech.Proof.ZkLockTest
import StudyTech.Proof.CommentBoard
import StudyTech.Proof.AccessToken
import StudyTech.Proof.OrderlyQueue
import StudyTech.Proof.BlogEditor
import StudyTech.Proof.AdminNames
import StudyTech.Proof.DocValue
import StudyTech.Proof.EditSelection
import StudyTech.Proof.EditRuns
import StudyTech.Proof.EditHistory

import Edm.Support.Run
import Edm.Support.StdMap
import Edm.Support.CString
import Edm.Support.Search
import Edm.Support.First
import Edm.Support.Tally
import Edm.Support.Bytes
import Edm.Support.Pack
import Edm.Support.Split
import Edm.Support.Overwrite
import Edm.Support.Crlf
import Edm.Support.Socket
import Edm.Support.Arrivals
import Edm.Support.Replace
import Edm.Support.Decimal
import Edm.Support.Query
import Edm.Support.Lower
import Edm.Support.Quote
import Edm.Support.Inet
import Edm.Support.Path
import Edm.Support.Mailbox
import Edm.Support.Shared
import Edm.Support.Rows
import Edm.Smtp.Context
import Edm.Smtp.RateControl
import Edm.Smtp.Quota
import Edm.Smtp.Session
import Edm.Smtp.Dialogue
import Edm.Smtp.Refusal
import Edm.Smtp.WhiteList
import Edm.Smtp.Exchange
import Edm.Smtp.Relay
import Edm.Smtp.RetryStore
import Edm.Smtp.RetryQueue
import Edm.Maillist.Task
import Edm.Maillist.TaskFile
import Edm.Maillist.Statistics
import Edm.Maillist.Rounds
import Edm.Maillist.Record
import Edm.Maillist.Upload
import Edm.Maillist.Triger
import Edm.Maillist.TaskReport
import Edm.Deliver.Node
import Edm.Deliver.Wire
import Edm.Maillist.PostPackage
import Edm.Deliver.Body
import Edm.Deliver.Sender
import Edm.Deliver.Engine
import Edm.Deliver.Follow
import Edm.Deliver.Stopped
import Edm.Deliver.Retry
import Edm.Deliver.Counting
import Edm.Deliver.Report
import Edm.Deliver.Confirm
import Edm.Deliver.StopNotice
import Edm.Deliver.Template
import Edm.Deliver.Merge
import Edm.Cachedb.ParseTask
import Edm.Cachedb.EventQueue
import Edm.Cachedb.SqlText
import Edm.Cachedb.EventCount
import Edm.Cachedb.Breakdown
import Edm.Faceside.SyncQueue
import Edm.Faceside.SmtpPost
import Edm.Faceside.PostQueue
import Edm.DeliverHelp.Report
import Edm.DeliverHelp.Window
import Edm.Support.History
import Edm.Postmaster.Command
import Edm.Postmaster.Envelope
import Edm.Postmaster.Input
import Edm.Postmaster.Stored
import Edm.Postmaster.ForkProcess
import Edm.Postmaster.IdleTimeout
import Edm.Support.Iterator
import Edm.Support.Ranges
import Edm.Base.RangeStorage
import Edm.Deliver.MxMgr
import Edm.Deliver.StrReplace
import Edm.Protocolbuf.Declared
import Edm.Protocolbuf.RoundTrip
import Edm.Deliver.TableRows
import Edm.Deliver.Totle
import Edm.Deliver.ListRsp
import Edm.Deliver.Ability
import Edm.Smtp.RetryDue
import Edm.Smtp.RetryFile
import Edm.Smtp.Receive
import Edm.Smtp.RecvLine
import Edm.Maillist.Indexed
import Edm.Maillist.Scores
import Edm.Maillist.Reports
import Edm.Maillist.RoundRobin
import Edm.Maillist.TaskList
import Edm.Maillist.AliasFile
import Edm.Deliver.SeqNo
import Edm.Deliver.Edcode
import Edm.Deliver.InetAddr
import Edm.Cachedb.Response
import Edm.Maillist.HandOut
import Edm.Cachedb.IpArea
import Edm.Cachedb.HandleMessage
import Edm.Deliver.OldEml
import Edm.Cachedb.ParseUrl
import Edm.Cachedb.UrlEvent
import Edm.Cachedb.ParseMessage
import Edm.LableManager.Email
import Edm.LableManager.EpollOutput
import Edm.DeliverHelp.Worker
import Edm.Deliver.SendReport
import Edm.Maillist.YxList
import Edm.LableManager.QueryResult
import Edm.LableManager.ScanLog
import Edm.LableManager.LabelImport
import Edm.DeliverHelp.QueryReport
import Edm.Postmaster.Argument
import Edm.Base.LogicalExp
import Edm.Base.LogicalText
import Edm.Network.IPRangeMap
import Edm.Network.IPRangeList
import Edm.Support.Getline
import Edm.Faceside.TaskInf
import Edm.Faceside.TaskSections
import Edm.Faceside.Getline
import Edm.Faceside.Fault
import Edm.Faceside.Base64
import Edm.Faceside.DwString
import Edm.Faceside.TaskDump
import Edm.Faceside.TaskSafe
import Edm.Smtp.RecvN
import Edm.Faceside.Linefeed
import Edm.Deliver.LineWrap
import Edm.Base.TimeValue
import Edm.Support.Calendar
import Edm.Base.Calendar
import Edm.Base.DateTime
import Edm.Support.LineEnds
import Edm.Stream.ReadLine
import Edm.Support.SkipSearch
import Edm.Base.FindSubString
import Edm.Network.DnsLookup
import Edm.Faceside.TaskRead
import Edm.Faceside.TaskMerge
import Edm.Faceside.TaskMime
import Edm.Support.Mime
import Edm.Support.FreeList
import Edm.Support.Monitor
import Edm.System.ResourcePool
import Edm.LableManager.ThreadPool
import Edm.LableManager.RequestLine
import Edm.LableManager.Request
import Edm.Support.Places
import Edm.LableManager.Contexts
import Edm.System.IniLine
import Edm.System.IniFile
import Edm.Protocolbuf.Path
import Edm.System.IniConfigure
import Edm.System.ConfigureMgr

import OneSig.Lib.Async.Prog
import OneSig.Lib.Async.System
import OneSig.Lib.Async.Logic
import OneSig.Lib.Async.Exec
import OneSig.Lib.Bytes
import OneSig.Lib.Utf8
import OneSig.Js
import OneSig.JsonText
import OneSig.JsonStringify
import OneSig.Viem
import OneSig.Sdk.Memo
import OneSig.Sdk.MemoRoundTrip
import OneSig.Sdk.UserOp
import OneSig.Sdk.Prepare
import OneSig.Lib.JsMap
import OneSig.Executor.Types
import OneSig.Executor.World
import OneSig.Executor.Store
import OneSig.Executor.Fdc
import OneSig.Executor.Pipeline
import OneSig.Executor.Watcher
import OneSig.Executor.Service
import OneSig.Executor.Requests
import OneSig.Executor.Provenance
import OneSig.Executor.Binding
import OneSig.Executor.Metadata
import OneSig.Executor.StepSpec
import OneSig.Executor.Fee
import OneSig.Executor.PollSpec
import OneSig.Executor.TickSpec
import OneSig.Executor.Sequential
import OneSig.Executor.Overlap
import OneSig.Executor.Intake
import OneSig.Executor.Solo
import OneSig.Latch.Requests
import OneSig.Latch.InstructionSender
import OneSig.Latch.Handlers
import OneSig.Latch.Commands
import OneSig.Latch.Steps
import OneSig.Latch.Seal
import OneSig.Latch.OnChain
import OneSig.Latch.Redelivery
import OneSig.Latch.Lifecycle
import OneSig.Latch.Release
import OneSig.Latch.Server
import OneSig.Latch.HttpContract
import OneSig.Executor.Drive
import OneSig.Executor.Restart
import OneSig.Executor.Interrupted
import OneSig.Executor.Delay
import OneSig.Executor.Stages
import OneSig.Executor.OnePayment
import OneSig.Contracts.Vault
import OneSig.Contracts.Ledger
import OneSig.Contracts.Registry
import OneSig.Sdk.Canonical
import OneSig.Executor.MemoGrammar
import OneSig.Executor.LostRace
import OneSig.Latch.Container
import OneSig.Latch.Exit
import OneSig.Lib.Replace
import OneSig.Latch.Secrecy
import OneSig.Lib.Async.Twin
import OneSig.Executor.Views
import OneSig.Executor.Disclosure
import OneSig.Executor.Retry
import OneSig.Executor.Cursor
import OneSig.Executor.Receipts
import OneSig.Latch.Arm
import OneSig.Latch.Feed
import OneSig.Latch.PriceTrigger
import OneSig.Latch.Spelling
import OneSig.Sdk.Payment
import OneSig.Executor.PendingMap
import OneSig.Executor.RealPayments
import OneSig.Executor.Submit
import OneSig.Executor.StatusPath
import OneSig.Executor.EndToEnd
import OneSig.Executor.Resume
import OneSig.Lib.Utf16
import OneSig.Latch.Framework
import OneSig.Latch.Tick
import OneSig.Latch.Replies
import OneSig.Latch.Client
import OneSig.Latch.Serialized
import OneSig.Tools.Resumed
import OneSig.Executor.Lifespan
import OneSig.Executor.EveryTick
import OneSig.Greeting.Conformance
import OneSig.Latch.ExtensionId
import OneSig.Tools.VerifyDeploy

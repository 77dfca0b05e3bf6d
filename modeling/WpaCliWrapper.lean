import WpaCliWrapper.CText.Words
import WpaCliWrapper.CText.Abbreviation
import WpaCliWrapper.CText.Decimal
import WpaCliWrapper.Exchange.Rules
import WpaCliWrapper.Exchange.Announced
import WpaCliWrapper.Common.WpaCtrl
import WpaCliWrapper.Common.Cli
import WpaCliWrapper.Wrapper.Tokenizer
import WpaCliWrapper.Wrapper.Commands
import WpaCliWrapper.Wrapper.Handlers
import WpaCliWrapper.Wrapper.Plan
import WpaCliWrapper.Wrapper.Transport
import WpaCliWrapper.Wrapper.Execute
import WpaCliWrapper.Wrapper.Contract
import WpaCliWrapper.Wrapper.Forwarding
import WpaCliWrapper.Wrapper.Pairing
import WpaCliWrapper.Wrapper.Agreement
import WpaCliWrapper.Wrapper.TokenizerAgreement
import WpaCliWrapper.Wrapper.ParseLine
import WpaCliWrapper.Common.Receive
import WpaCliWrapper.Wrapper.Receivers
import WpaCliWrapper.Wrapper.LifeCycle
import WpaCliWrapper.Wrapper.NetworkList
import WpaCliWrapper.Wrapper.History
import WpaCliWrapper.Wrapper.Resolution
import WpaCliWrapper.Wrapper.Wps
import WpaCliWrapper.Wrapper.CliEvent
import WpaCliWrapper.Utils.Printf
import WpaCliWrapper.Utils.Hex
import WpaCliWrapper.Supplicant.Config
import WpaCliWrapper.Supplicant.CtrlIface
import WpaCliWrapper.Oper.ConnectWifi
import WpaCliWrapper.Oper.Steps
import WpaCliWrapper.Oper.Runs
import WpaCliWrapper.Oper.Opening
import WpaCliWrapper.Oper.ConnectFrame
import WpaCliWrapper.Oper.Rollback
import WpaCliWrapper.Oper.Ssid
import WpaCliWrapper.Oper.Success
import WpaCliWrapper.Supplicant.ScanResults
import WpaCliWrapper.Oper.ScanItems
import WpaCliWrapper.Oper.ScanRoundTrip
import WpaCliWrapper.Smartlist.Refinement
import WpaCliWrapper.Smartlist.Capacity
import WpaCliWrapper.Heap.Order
import WpaCliWrapper.Smartlist.PQueueRemove
import WpaCliWrapper.Smartlist.PQueueIndex
import WpaCliWrapper.Smartlist.Search
import WpaCliWrapper.Smartlist.Strings
import WpaCliWrapper.Smartlist.Splitting
import WpaCliWrapper.Smartlist.SplitEnds
import WpaCliWrapper.Smartlist.MostFrequent
import WpaCliWrapper.Smartlist.Uniq
import WpaCliWrapper.Smartlist.SetOperations
import WpaCliWrapper.Smartlist.Foreach
import WpaCliWrapper.Compat.Sunday
import WpaCliWrapper.Bitarray
import WpaCliWrapper.CText.Recent
import WpaCliWrapper.CText.Cursor
import WpaCliWrapper.Edit.Key
import WpaCliWrapper.Edit.Completion
import WpaCliWrapper.Supplicant.BssRuns
import WpaCliWrapper.Utils.EloopRuns
import WpaCliWrapper.Supplicant.MonitorRuns
import WpaCliWrapper.Supplicant.NetworkCopy

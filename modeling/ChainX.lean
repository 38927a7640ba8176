import ChainX.Codec.Extensible
import ChainX.Consensus.SigCache
import ChainX.Consensus.VerifyScript
import ChainX.Evm.Safe
import ChainX.Exchange.Authorisation
import ChainX.Exchange.Batches
import ChainX.Exchange.Custody
import ChainX.Exchange.PartialValue
import ChainX.Exchange.Prediction
import ChainX.Governance.RateCheckBuffer
import ChainX.Governance.VoteMany
import ChainX.Hosting.Confirmations
import ChainX.Hosting.EditConf
import ChainX.Ico.Approval
import ChainX.Ico.Books
import ChainX.Ico.Investors
import ChainX.Ico.Pool
import ChainX.Ico.TimeVault
import ChainX.Ico.Totals
import ChainX.Json.Duration
import ChainX.Json.Escapes
import ChainX.Json.Reader
import ChainX.Json.Utils
import ChainX.Masternode.Active
import ChainX.MultiSig.Execution
import ChainX.MultiSig.Journal
import ChainX.MultiSig.Quorum
import ChainX.MultiSig.Views
import ChainX.Proxy.Authorities
import ChainX.Rpc.ChainInfo
import ChainX.Rpc.ChainTips
import ChainX.Rpc.Failover
import ChainX.Rpc.Headers
import ChainX.Script.Arithmetic
import ChainX.Script.Minimal
import ChainX.Script.Position
import ChainX.SimpleCrowdsale.Closing
import ChainX.Token.Agreement
import ChainX.Token.DummyToken
import ChainX.TokenRegistry.Addresses
import ChainX.TokenRegistry.Journal
import ChainX.Tx.CommandLine
import ChainX.Tx.MutateTx
import ChainX.Tx.Sign
import ChainX.Wallet.AddKey
import ChainX.Wallet.Crypter
import ChainX.Wallet.EncryptFailure
import ChainX.Wallet.FastCheck
import ChainX.Wallet.FirstKey
import ChainX.Wallet.IsMine
import ChainX.Wallet.Records
import ChainX.Wallet.Salvage
import ChainX.Wallet.WalletTx

import PlusWallet.Library.MerkleTree
import PlusWallet.Library.Run
import PlusWallet.Library.RepSet
import PlusWallet.Library.Cyclic
import PlusWallet.Library.KeyedSet
import PlusWallet.Library.Bytes
import PlusWallet.MerkleBlock.Block
import PlusWallet.MerkleBlock.Depth
import PlusWallet.MerkleBlock.Walk
import PlusWallet.MerkleBlock.Soundness
import PlusWallet.MerkleBlock.PartialTree
import PlusWallet.MerkleBlock.Completeness
import PlusWallet.Set.BRSet
import PlusWallet.Set.Probe
import PlusWallet.Set.Holds
import PlusWallet.Set.Remove
import PlusWallet.Set.Bulk
import PlusWallet.Set.Refinement
import PlusWallet.Transaction.Transaction
import PlusWallet.Transaction.Script
import PlusWallet.Transaction.Serialize
import PlusWallet.Transaction.Parse
import PlusWallet.Transaction.RoundTrip
import PlusWallet.Wallet.Wallet
import PlusWallet.Wallet.Payment
import PlusWallet.Wallet.FeeLaw
import PlusWallet.Wallet.Steps
import PlusWallet.Wallet.Addresses
import PlusWallet.Wallet.Order
import PlusWallet.Rlp.BRRlpCoder
import PlusWallet.Rlp.RoundTrip
import PlusWallet.Library.MapM
import PlusWallet.Bip32.BRBIP32Sequence
import PlusWallet.Bip32.Derivation
import PlusWallet.Library.Positional
import PlusWallet.Address.BRBase58
import PlusWallet.Address.Base58Check
import PlusWallet.Address.BRBech32
import PlusWallet.Address.BRAddress
import PlusWallet.Library.Bits
import PlusWallet.Address.Regroup
import PlusWallet.Address.Polymod
import PlusWallet.Address.Bech32
import PlusWallet.Address.Conversion
import PlusWallet.Manager.Publish
import PlusWallet.Manager.BRTxPeerList
import PlusWallet.Manager.Callbacks
import PlusWallet.Library.Faults
import PlusWallet.MerkleBlock.Parse
import PlusWallet.Peer.BRPeer
import PlusWallet.Peer.Delivery
import PlusWallet.Peer.Bounds
import PlusWallet.Bip39.BRBIP39Mnemonic
import PlusWallet.Bip39.Mnemonic
import PlusWallet.Database.CoreDatabase
import PlusWallet.Database.Blocks
import PlusWallet.Sender.BitcoinSender
import PlusWallet.Sender.Sending
import PlusWallet.Auth.WalletManager
import PlusWallet.Auth.SpendingLimit
import PlusWallet.Library.LinearChecksum
import PlusWallet.Address.BRBCashAddr
import PlusWallet.Address.CashAddress
import PlusWallet.Address.CashConversion
import PlusWallet.Wallet.Events
import PlusWallet.Wallet.Named
import PlusWallet.Database.Transactions
import PlusWallet.Database.Mirror
import PlusWallet.Database.MirrorLaw
import PlusWallet.Auth.PinLock
import PlusWallet.Rlp.Items
import PlusWallet.Ethereum.BREthereumLog
import PlusWallet.Ethereum.Receipts
import PlusWallet.Library.Limbs
import PlusWallet.Ethereum.BRUtilHex
import PlusWallet.Ethereum.BRUtilMath
import PlusWallet.Ethereum.BREthereumTransaction
import PlusWallet.Ethereum.Transactions
import PlusWallet.Ethereum.SignedTransactions
import PlusWallet.Ethereum.CanonicalTransactions
import PlusWallet.Ethereum.BREthereumBlock
import PlusWallet.Ethereum.Blocks
import PlusWallet.Library.KeyedOrder
import PlusWallet.Ethereum.BREthereumWallet
import PlusWallet.Ethereum.WalletOrder
import PlusWallet.Ethereum.BREthereumLightNode
import PlusWallet.Ethereum.Announcements
import PlusWallet.Ethereum.Nonces
import PlusWallet.Platform.BRWebSocket
import PlusWallet.Platform.Frames
import PlusWallet.Platform.Messages
import PlusWallet.Wallet.Balance
import PlusWallet.Wallet.Height
import PlusWallet.Wallet.Registration
import PlusWallet.Library.Traced
import PlusWallet.Transaction.Bounds
import PlusWallet.Transaction.Trace
import PlusWallet.Wallet.Overpay
import PlusWallet.Library.Cascade
import PlusWallet.Wallet.Removal
import PlusWallet.Peer.Headers
import PlusWallet.Manager.Chain
import PlusWallet.Library.Descent
import PlusWallet.Manager.ChainSteps
import PlusWallet.Manager.Locators
import PlusWallet.MerkleBlock.Termination
import PlusWallet.Library.CompactNumber
import PlusWallet.Library.ByteOrder
import PlusWallet.MerkleBlock.ProofOfWork
import PlusWallet.MerkleBlock.Serialize
import PlusWallet.MerkleBlock.RoundTrip
import PlusWallet.MerkleBlock.HandBuilt
import PlusWallet.Transaction.Preimages
import PlusWallet.Transaction.Pushes
import PlusWallet.Address.CashOverflow
import PlusWallet.Address.BRKey
import PlusWallet.Address.PrivateKeys
import PlusWallet.MerkleBlock.Retarget
import PlusWallet.MerkleBlock.CashDifficulty
import PlusWallet.Manager.FeeFilter
import PlusWallet.PaymentProtocol.ProtoBuf
import PlusWallet.PaymentProtocol.BRPaymentProtocol
import PlusWallet.PaymentProtocol.Wire
import PlusWallet.PaymentProtocol.Kept
import PlusWallet.PaymentProtocol.Progress
import PlusWallet.PaymentProtocol.PublicKeys
import PlusWallet.Library.Reversible
import PlusWallet.Library.XorBytes
import PlusWallet.Library.Parts
import PlusWallet.Cipher.Aes
import PlusWallet.Cipher.Inverse
import PlusWallet.Keys.PublicKey
import PlusWallet.Keys.BRBIP38Key
import PlusWallet.Keys.BIP38RoundTrip
import PlusWallet.Cipher.Ctr
import PlusWallet.Keys.BRKeyECIES
import PlusWallet.Keys.ECIESRoundTrip
import PlusWallet.Platform.Extensions
import PlusWallet.Platform.SealedValues
import PlusWallet.Cipher.BRChacha20
import PlusWallet.Cipher.BRPoly1305
import PlusWallet.Cipher.Poly1305
import PlusWallet.Ethereum.BREthereumBloomFilter
import PlusWallet.Platform.BRHTTPServer
import PlusWallet.Platform.Responses
import PlusWallet.Platform.SendQueue
import PlusWallet.Library.Chain
import PlusWallet.Ethereum.BREventQueue
import PlusWallet.Platform.KeyListing
import PlusWallet.Library.LimbSteps
import PlusWallet.Ethereum.Arithmetic
import PlusWallet.Ethereum.Numerals
import PlusWallet.Ethereum.BRUtilMathParse
import PlusWallet.Platform.RequestBody
import PlusWallet.Library.LexicalPath
import PlusWallet.Platform.BRTar
import PlusWallet.Platform.TarPaths
import PlusWallet.Platform.TarArchive
import PlusWallet.Platform.BRBSPatch
import PlusWallet.Platform.PatchCursor
import PlusWallet.Platform.PatchLaw
import PlusWallet.Peer.PeerThread
import PlusWallet.Peer.Framing
import PlusWallet.Library.BitField
import PlusWallet.Peer.BRBloomFilter
import PlusWallet.Set.BRArray
import PlusWallet.Platform.CurrencyListMetaData
import PlusWallet.Platform.BRHTTPFileMiddleware
import PlusWallet.Platform.BRAPIClient
import PlusWallet.Sender.PaymentRequests
import PlusWallet.Sender.PaymentAdmission
import PlusWallet.Library.Utf8
import PlusWallet.Library.PercentEncoding
import PlusWallet.Library.Splitting
import PlusWallet.Platform.QueryStrings
import PlusWallet.Platform.QueryRoundTrip
import PlusWallet.Library.Blocks
import PlusWallet.Hash.BRCrypto
import PlusWallet.Hash.Padding
import PlusWallet.Library.Memory
import PlusWallet.Library.KeyedHash
import PlusWallet.Hash.BRHMAC
import PlusWallet.Hash.KeyedHashes
import PlusWallet.Library.MemoryHard
import PlusWallet.Hash.BRScrypt
import PlusWallet.Hash.Scrypt

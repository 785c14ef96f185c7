import FlashWallet.Wallet.LedgerChain
import FlashWallet.Wallet.Deduction
import FlashWallet.Wallet.DoubleSpend
import FlashWallet.Wallet.Duplicates
import FlashWallet.Wallet.Recipients
import FlashWallet.Wallet.Pairing
import FlashWallet.Wallet.Deadlock
import FlashWallet.Wallet.Replays
import FlashWallet.Wallet.Rejected
import FlashWallet.Wallet.ExactMoney
import FlashWallet.Wallet.Report
import FlashWallet.Wallet.Statement
import FlashWallet.Wallet.LimitParameter
import FlashWallet.Sale.Payment
import FlashWallet.Sale.Oversell
import FlashWallet.Sale.Ownership
import FlashWallet.Sale.Charges
import FlashWallet.Sale.Accounting
import FlashWallet.Sale.SellThrough
import FlashWallet.Sale.Agreement
import FlashWallet.Sale.Notifications
import FlashWallet.Sale.Recovery
import FlashWallet.Auth.SingleUse
import FlashWallet.Auth.Registration
import FlashWallet.Auth.Revocation
import FlashWallet.Auth.TimesToLive
import FlashWallet.Auth.SessionStore
import FlashWallet.Auth.HonestRefresh
import FlashWallet.Auth.Isolation
import FlashWallet.Auth.Provisioning
import FlashWallet.Access.BullBoard
import FlashWallet.Config.Settings
import FlashWallet.Wallet.Serializable
import FlashWallet.Service.Progress
import FlashWallet.App.Authorization
import FlashWallet.Sale.Refusals
import FlashWallet.Sale.Catalogue
import FlashWallet.Sale.Delivery

import Dankerino.Common.SignalVector
import Dankerino.Qt.QString

/-!
# The account lists

`AccountController` of `controllers/accounts`: the accounts of the `TwitchAccountManager`, and the
list of all accounts (`accounts_`) that the settings show. Each list is a `SignalVector`, and the
controller forwards what happens to one of them to the other.

A shared pointer is the address of an account with the fields of the account that never change. What
`TwitchAccountManager` itself does when an account goes (settings, current user) changes neither
list. `none` stands for a failed assertion.
-/

namespace Dankerino

inductive ProviderId
  | twitch
  | irc
deriving DecidableEq, Repr

structure Account where
  address : Nat
  providerId : ProviderId
  text : QString
deriving DecidableEq, Repr

namespace Account

/-- `category_`, which the constructor sets. -/
def getCategory (account : Account) : QString :=
  match account.providerId with
  | .twitch => "Twitch".toList
  | .irc => "Unknown ProviderId".toList

/-- `operator<`: by category, then by text. -/
def less (account other : Account) : Bool :=
  QString.less account.getCategory other.getCategory ||
    (!QString.less other.getCategory account.getCategory && QString.less account.text other.text)

end Account

structure TwitchAccount where
  address : Nat
  userName : QString
deriving DecidableEq, Repr

namespace TwitchAccount

/-- The same object as an `Account`. -/
def toAccount (account : TwitchAccount) : Account :=
  { address := account.address, providerId := .twitch, text := account.userName }

def less (account other : TwitchAccount) : Bool := account.toAccount.less other.toAccount

end TwitchAccount

structure AccountController where
  twitchAccounts : SignalVector TwitchAccount
  accounts : SignalVector Account

namespace AccountController

def new : AccountController where
  twitchAccounts := { items := [], itemCompare := some TwitchAccount.less }
  accounts := { items := [], itemCompare := some Account.less }

/-- `std::find` in the accounts of the manager. -/
def find (accs : List TwitchAccount) (item : Account) : Option Nat :=
  accs.findIdx? fun account => decide (account.toAccount = item)

/-- `twitch.accounts.insert`, with what is connected to `itemInserted`. -/
def insertTwitch (s : AccountController) (account : TwitchAccount) (index : Option Nat) :
    Option AccountController := do
  let (twitchAccounts, _) ← s.twitchAccounts.insert account index
  let (accounts, _) ← s.accounts.insert account.toAccount none
  some { twitchAccounts, accounts }

/--
What is connected to `twitch.accounts.itemRemoved`. It looks for the account in the list that it
has just been removed from.
-/
def onTwitchRemoved (s : AccountController) (item : Account) (caller : Caller) :
    Option AccountController :=
  if caller = .self then some s
  else
    match find s.twitchAccounts.items item with
    | none => none
    | some i => do
      -- the signal of this removal has the controller as its caller and is ignored
      let (accounts, _) ← s.accounts.removeAt i
      some { s with accounts }

/-- What is connected to `accounts_.itemRemoved`. -/
def onAccountRemoved (s : AccountController) (item : Account) (caller : Caller) :
    Option AccountController :=
  match item.providerId with
  | .twitch =>
    if caller = .self then some s
    else
      match find s.twitchAccounts.items item with
      | none => none
      | some i => do
        let (twitchAccounts, removed) ← s.twitchAccounts.removeAt i
        onTwitchRemoved { s with twitchAccounts } removed.toAccount .self
  | .irc => some s

/-- `twitch.accounts.removeAt`. -/
def removeTwitchAt (s : AccountController) (index : Nat) (caller : Caller) :
    Option AccountController := do
  let (twitchAccounts, item) ← s.twitchAccounts.removeAt index
  onTwitchRemoved { s with twitchAccounts } item.toAccount caller

/-- `accounts_.removeAt`. -/
def removeAccountAt (s : AccountController) (index : Nat) (caller : Caller) :
    Option AccountController := do
  let (accounts, item) ← s.accounts.removeAt index
  onAccountRemoved { s with accounts } item caller

end AccountController

end Dankerino

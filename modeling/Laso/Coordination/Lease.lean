import Laso.Core.Types
import Mathlib.Algebra.Group.Nat.Defs

/-!
# The lease table

`PostgresCoordination` keeps one row for each resource: its owner, a **fencing token** and an
expiry time. Every operation is one transaction that locks the row, so it is modelled as a
function on the whole table; the statements inside a transaction read the database clock one after
another, which `Ticks` makes explicit.

* `Leases.acquire` inserts the row with token 1 or, when the stored lease has expired, takes it
  over and increments the token.
* `Leases.renew`, `Leases.release` and the owned write `Leases.commitOwned` act only on the row
  that carries exactly the caller's owner and token and has not expired: `Leases.holds`.

`Leases.step` is one call made by an instance, `Leases.run` a sequence of them by any number of
instances, in the order in which their transactions commit.
-/

namespace Laso

/-- What a client keeps of a lease it acquired. -/
structure LeaseRecord where
  resourceKey : String
  ownerInstance : String
  fencingToken : Nat
  active : Bool := true
  deriving DecidableEq, Repr

/-- A row of the lease table, with its expiry as a time of the database clock. -/
structure LeaseRow where
  resourceKey : String
  ownerInstance : String
  fencingToken : Nat
  expiresAt : Nat
  deriving DecidableEq, Repr

instance : Keyed LeaseRow := ⟨LeaseRow.resourceKey⟩

@[simp] lemma LeaseRow.key_eq (row : LeaseRow) : Keyed.key row = row.resourceKey := rfl

/-- Administrative states of a registered instance. -/
inductive InstanceState where
  | starting | active | draining | drained | maintenance | stopped | stale
  deriving DecidableEq, Repr

/-- The coordination tables and the database clock, which counts microseconds. -/
structure Leases where
  clock : Nat := 0
  instances : Table (String × InstanceState) := Table.empty
  rows : Table LeaseRow := Table.empty

/-- How far the clock moves before each of the (at most three) times one statement reads it. The
increments are natural numbers: the database clock never goes back. -/
structure Ticks where
  first : Nat := 0
  second : Nat := 0
  third : Nat := 0
  deriving DecidableEq, Repr

namespace Leases

/-- `validate_resource`. -/
def validateResource (resource : String) : Except Error Unit :=
  if resource.isEmpty || 256 < resource.utf8ByteSize then
    .error ⟨.validation, "Invalid coordination resource key"⟩
  else .ok ()

/-- `validate_ttl`. -/
def validateTtl (ttlMs : Nat) : Except Error Unit :=
  if ttlMs = 0 || 86400000 < ttlMs then
    .error ⟨.validation, "Invalid coordination lease duration"⟩
  else .ok ()

/-- The largest value of a `BIGINT` column. -/
def maxToken : Nat := 2 ^ 63 - 1

/-- The predicate `renew`, `release`, `require_current` and `commit_owned` put on the lease row:
it carries this owner and this token, and has not expired at time `now`. -/
def holdsAt (l : Leases) (now : Nat) (resource owner : String) (token : Nat) : Bool :=
  match l.rows.get resource with
  | some row => row.ownerInstance == owner && row.fencingToken == token && now < row.expiresAt
  | none => false

variable (l : Leases) (t : Ticks)

def advance : Leases :=
  { l with clock := l.clock + t.first + t.second + t.third }

/-- `acquire`, by the instance `owner`. The inserted values are evaluated first, so the new expiry
counts from the first clock read and the stored one is compared with the second. -/
def acquire (owner resource : String) (ttlMs : Nat) :
    Except Error (Option LeaseRecord) × Leases :=
  match validateResource resource, validateTtl ttlMs with
  | .error e, _ => (.error e, l)
  | _, .error e => (.error e, l)
  | .ok _, .ok _ =>
    let l' := l.advance t
    if (l.instances.get owner).map Prod.snd = some .active then
      let expiry := l.clock + t.first + 1000 * ttlMs
      let insert (token : Nat) : Except Error (Option LeaseRecord) × Leases :=
        (.ok (some ⟨resource, owner, token, decide (l'.clock < expiry)⟩),
          { l' with rows := l'.rows.put ⟨resource, owner, token, expiry⟩ })
      match l.rows.get resource with
      | none => insert 1
      | some row =>
        if row.expiresAt ≤ l.clock + t.first + t.second then
          if row.fencingToken < maxToken then insert (row.fencingToken + 1)
          else (.error ⟨.storage, "Coordination database operation failed"⟩, l')
        else (.ok none, l')
    else (.ok none, l')

variable (owner : String) (lease : LeaseRecord)

/-- `renew`, by the instance `owner`: the client's record is replaced by the row it renewed. -/
def renew (ttlMs : Nat) :
    Except Error (Option LeaseRecord) × Leases :=
  match validateResource lease.resourceKey, validateTtl ttlMs with
  | .error e, _ => (.error e, l)
  | _, .error e => (.error e, l)
  | .ok _, .ok _ =>
    if lease.ownerInstance ≠ owner then (.ok none, l)
    else
      let l' := l.advance t
      if l.holdsAt (l.clock + t.first) lease.resourceKey lease.ownerInstance lease.fencingToken then
        let expiry := l.clock + t.first + t.second + 1000 * ttlMs
        (.ok (some { lease with active := decide (l'.clock < expiry) }), { l' with
            rows := l'.rows.put
              ⟨lease.resourceKey, lease.ownerInstance, lease.fencingToken, expiry⟩ })
      else (.ok none, l')

/-- `release`, by the instance `owner`: the row expires now. -/
def release :
    Except Error Bool × Leases :=
  match validateResource lease.resourceKey with
  | .error e => (.error e, l)
  | .ok _ =>
    if lease.ownerInstance ≠ owner then (.ok false, l)
    else
      let l' := l.advance t
      if l.holdsAt (l.clock + t.first) lease.resourceKey lease.ownerInstance lease.fencingToken then
        (.ok true, { l' with
            rows := l'.rows.put ⟨lease.resourceKey, lease.ownerInstance, lease.fencingToken,
                l.clock + t.first + t.second⟩ })
      else (.ok false, l')

/-- `require_current`, by the instance `owner`. -/
def requireCurrent :
    Except Error Unit × Leases :=
  match validateResource lease.resourceKey with
  | .error e => (.error e, l)
  | .ok _ =>
    if lease.ownerInstance ≠ owner then
      (.error ⟨.conflict, "Coordination fencing token belongs to another owner"⟩, l)
    else if l.holdsAt (l.clock + t.first) lease.resourceKey lease.ownerInstance
        lease.fencingToken then
      (.ok (), l.advance t)
    else (.error ⟨.conflict, "Stale coordination fencing token"⟩, l.advance t)

/-- The ownership check of `commit_owned` at a clock read. -/
def ownershipProof (resource owner : String) (token : Nat) :
    Except Error Unit :=
  if resource.isEmpty || owner.isEmpty || token = 0 then
    .error ⟨.validation, "Invalid run ownership proof"⟩
  else if l.holdsAt (l.clock + t.first) resource owner token then .ok ()
  else .error ⟨.conflict, "Run ownership is no longer valid"⟩

/-- `commit_owned` as far as the lease table is concerned: the write happens in the transaction
that checked the lease, and `write` is the outcome of writing the records. -/
def commitOwned (l : Leases) (t : Ticks) (resource owner : String) (token : Nat)
    (write : Except Error Unit) : Except Error Unit × Leases :=
  match l.ownershipProof t resource owner token with
  | .error e => (.error e, l.advance t)
  | .ok _ => (write, l.advance t)

/-! ## The lease protocol as a machine -/

/-- Calls made by instances, in the order in which their transactions commit. -/
inductive Call where
  | acquire (owner resource : String) (ttlMs : Nat)
  | renew (owner : String) (lease : LeaseRecord) (ttlMs : Nat)
  | release (owner : String) (lease : LeaseRecord)
  | commitOwned (resource owner : String) (token : Nat) (write : Except Error Unit)
  | setInstance (owner : String) (state : InstanceState)

/-- What can go wrong between an instance and the database. -/
inductive Fault where
  | none
  /-- The transaction is rolled back. -/
  | rolledBack
  /-- The transaction commits, but the connection breaks before the caller learns it. -/
  | lostReply
  deriving DecidableEq, Repr

inductive Reply where
  | acquired (resource : String) (token : Nat)
  | renewed (resource : String) (token : Nat)
  | released (resource : String) (token : Nat)
  | committed (resource : String) (token : Nat)
  | refused
  deriving DecidableEq, Repr

/-- The reply to a call and the tables after it, when nothing goes wrong. -/
def perform : Call → Reply × Leases
  | .acquire owner resource ttlMs =>
    match l.acquire t owner resource ttlMs with
    | (.ok (some lease), l') => (.acquired lease.resourceKey lease.fencingToken, l')
    | (_, l') => (.refused, l')
  | .renew owner lease ttlMs =>
    match l.renew t owner lease ttlMs with
    | (.ok (some lease'), l') => (.renewed lease'.resourceKey lease'.fencingToken, l')
    | (_, l') => (.refused, l')
  | .release owner lease =>
    match l.release t owner lease with
    | (.ok true, l') => (.released lease.resourceKey lease.fencingToken, l')
    | (_, l') => (.refused, l')
  | .commitOwned resource owner token write =>
    match l.commitOwned t resource owner token write with
    | (.ok _, l') => (.committed resource token, l')
    | (_, l') => (.refused, l')
  | .setInstance owner state =>
    (.refused, { l.advance t with instances := l.instances.put (owner, state) })

/-- One call, which a fault may roll back or hide from its caller. -/
def step (f : Fault) (c : Call) : Reply × Leases :=
  match f with
  | .none => l.perform t c
  | .rolledBack => (.refused, l.advance t)
  | .lostReply => (.refused, (l.perform t c).2)

/-- The replies of a sequence of calls and the final tables. -/
def run : Leases → List (Ticks × Fault × Call) → List Reply × Leases
  | l, [] => ([], l)
  | l, (t, f, c) :: rest =>
    let (reply, l') := l.step t f c
    let (replies, l'') := run l' rest
    (reply :: replies, l'')

/-- The token of the row of a resource, 0 when there is none. -/
def level (l : Leases) (resource : String) : Nat :=
  match l.rows.get resource with
  | some row => row.fencingToken
  | none => 0

end Leases

end Laso

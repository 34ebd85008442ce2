import MysqlRust.Foundation.Lists
import MysqlRust.Storage.Interleaving

/-! # Calls that commute

Calls on different tables have one effect in either order, and so have database calls unless one
creates what the other drops. Such a call may be applied ahead of calls that were logged before it.
-/
namespace MysqlRust

open Outcome List Lists

def Call.tables (c : Call) : List String := c.creates.toList ++ c.alters.toList ++ c.locks

def Call.onDatabases (databases : Finset String) : Call → Finset String
  | .createDatabase name _ => insert name databases
  | .dropDatabase name _ => databases.erase name
  | _ => databases

def Call.isDatabase : Call → Bool
  | .createDatabase _ _ => true
  | .dropDatabase _ _ => true
  | _ => false

def Opposed : Call → Call → Prop
  | .createDatabase name _, .dropDatabase other _ => name = other
  | .dropDatabase name _, .createDatabase other _ => name = other
  | _, _ => False

instance (d c : Call) : Decidable (Opposed d c) := by
  unfold Opposed
  split <;> infer_instance

/-- The calls change neither a table in common nor one database in opposite ways. -/
def Separate (d c : Call) : Prop := (∀ table ∈ d.tables, table ∉ c.tables) ∧ ¬ Opposed d c
  deriving Decidable

/-- One table replaced by what becomes of it. -/
def Store.on (name : String) (f : Option Table → Result Table) (s : Store) : Result Store :=
  settle s (s.setTable name <$> f (s.tables.lookup name))

variable {c d : Call} {name other : String} {f g : Option Table → Result Table}

theorem on_commutes (hne : name ≠ other) : Commutes (Store.on name f) (Store.on other g) := by
  intro s
  have hcomm (t u : Table) : (s.setTable name t).setTable other u =
      (s.setTable other u).setTable name t :=
    congrArg (Store.mk · s.databases) (Finmap.insert_insert_of_ne _ hne)
  cases hf : f (s.tables.lookup name) <;> cases hg : g (s.tables.lookup other) <;>
    simp [Store.on, settle, hf, hg, lookup_setTable_of_ne, hne, hne.symm, hcomm]

theorem applyAlter_on (change : SchemaChange) : (applyAlter · name change) = Store.on name fun t =>
    okOr (tableMissing name) t >>= (computeAlteredTable · change) := by
  funext s
  unfold applyAlter Store.on
  cases s.tables.lookup name with
  | none => rfl
  | some t => cases h : computeAlteredTable t change <;> simp [okOr, settle, h]

theorem pushRow_on (p : String × Row) : (pushRow · p) = Store.on p.1 fun t =>
    okOr (tableMissing p.1) t >>= (·.pushTrusted p.2) := by
  funext s
  unfold pushRow Store.on
  cases s.tables.lookup p.1 with
  | none => rfl
  | some t =>
    cases ht : t.pushTrusted p.2 with
    | err e => exact absurd ht (t.pushTrusted_ne_err p.2 e)
    | ok t' => simp [okOr, ht, settle]
    | panic => simp [okOr, ht, settle]

theorem entry_commutes {g : Store → Result Store} (hc : c.isDatabase = false)
    (h : ∀ name ∈ c.tables, ∀ f, Commutes (Store.on name f) g) :
    Commutes (applyEntry · c.entry) g := by
  cases c with
  | createTable name columns primaryKey =>
    exact h name (by simp [Call.tables, Call.creates]) fun _ => .ok _
  | alterTable name change =>
    exact applyAlter_on change ▸ h name (by simp [Call.tables, Call.alters]) _
  | insertRow table row =>
    exact pushRow_on (table, row) ▸ h table (by simp [Call.tables, Call.locks, Call.inserts]) _
  | insertRows rows =>
    refine Commutes.foldlM fun p hp => pushRow_on p ▸ h p.1 ?_ _
    exact mem_append_right _ (mem_map_of_mem hp)
  | createDatabase | dropDatabase => cases hc

theorem onDatabases_comm (h : ¬ Opposed d c) (databases : Finset String) :
    d.onDatabases (c.onDatabases databases) = c.onDatabases (d.onDatabases databases) := by
  cases c <;> cases d <;> simp only [Call.onDatabases]
  case createDatabase.createDatabase name _ other _ => exact Finset.insert_comm other name databases
  case createDatabase.dropDatabase name _ other _ =>
    exact Finset.erase_insert_of_ne fun heq => h heq.symm
  case dropDatabase.createDatabase name _ other _ =>
    exact (Finset.erase_insert_of_ne fun heq => h heq).symm
  case dropDatabase.dropDatabase name _ other _ => exact Finset.erase_right_comm

theorem applyEntry_database (hc : c.isDatabase = true) (s : Store) :
    applyEntry s c.entry = .ok { s with databases := c.onDatabases s.databases } := by
  cases c <;> simp [Call.isDatabase] at hc <;> rfl

theorem on_commutes_database (hc : c.isDatabase = true) :
    Commutes (Store.on name f) (applyEntry · c.entry) := by
  intro s
  simp only [applyEntry_database hc, Store.on, ok_bind]
  cases f (s.tables.lookup name) <;> rfl

theorem Separate.commutes (h : Separate d c) :
    Commutes (applyEntry · d.entry) (applyEntry · c.entry) := by
  cases hd : d.isDatabase <;> cases hc : c.isDatabase
  · refine entry_commutes hd fun name hname f => Commutes.symm (entry_commutes hc ?_)
    exact fun other hother g => on_commutes fun heq => h.1 name hname (heq ▸ hother)
  · exact entry_commutes hd fun _ _ _ => on_commutes_database hc
  · exact (entry_commutes hc fun _ _ _ => on_commutes_database hd).symm
  · intro s
    simp only [applyEntry_database hd, applyEntry_database hc, ok_bind, onDatabases_comm h.2]

/-- A call that stands apart from those ahead of it in the log can be replayed first. -/
theorem replay_cons_erase {queue : List Call} (hc : c ∈ queue)
    (h : ∀ d ∈ queue.takeWhile (· ≠ c), Separate d c) (s : Store) :
    ((c :: queue.erase c).map Call.entry).foldlM applyEntry s =
      (queue.map Call.entry).foldlM applyEntry s := by
  rw [foldlM_map, foldlM_map]
  exact foldlM_cons_erase hc (fun d hd => (h d hd).commutes) s

end MysqlRust

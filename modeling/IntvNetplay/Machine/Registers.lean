import Mathlib.Data.Nat.Notation
import Mathlib.Tactic.SplitIfs

/-!
# A register file on a bus

Registers of 16 bits and loads and stores through them.  The pointer of an indirect access counts up
after it when it is register 4 or 5 and stays when it is one of the registers 1 to 3; the bus is a
parameter.  `reg_set` and the lemmas beside the operations let a straight run of instructions be
evaluated by rewriting.
-/

namespace IntvNetplay.Machine

/-- What is read from and written to. -/
structure Bus (σ : Type) where
  read : σ → ℕ → ℕ
  write : σ → ℕ → ℕ → σ

structure Core (σ : Type) where
  reg : ℕ → ℕ
  bus : σ

namespace Core

variable {σ : Type}

/-- Load a register. -/
def set (r v : ℕ) (c : Core σ) : Core σ := { c with reg := fun x => if x = r then v % 65536 else c.reg x }

/-- `MVII #k, r`. -/
def mvii (k r : ℕ) (c : Core σ) : Core σ := c.set r k

/-- `MOVR q, r`. -/
def movr (q r : ℕ) (c : Core σ) : Core σ := c.set r (c.reg q)

/-- `ADDI #k, r`. -/
def addi (k r : ℕ) (c : Core σ) : Core σ := c.set r (c.reg r + k)

/-- `ANDI #$FF, r`. -/
def andiByte (r : ℕ) (c : Core σ) : Core σ := c.set r (c.reg r % 256)

/-- `DECR r`. -/
def decr (r : ℕ) (c : Core σ) : Core σ := c.set r (c.reg r + 65535)

/-- `SLL r, 2`. -/
def sll2 (r : ℕ) (c : Core σ) : Core σ := c.set r (c.reg r * 4)

/-- The pointer after an access. -/
def after (p : ℕ) (c : Core σ) : Core σ := if p = 4 ∨ p = 5 then c.addi 1 p else c

/-- `MVI@ p, r`. -/
def mviAt (B : Bus σ) (p r : ℕ) (c : Core σ) : Core σ := (c.after p).set r (B.read c.bus (c.reg p))

/-- `MVO@ r, p`. -/
def mvoAt (B : Bus σ) (r p : ℕ) (c : Core σ) : Core σ :=
  ({ c with bus := B.write c.bus (c.reg p) (c.reg r) } : Core σ).after p

variable (c : Core σ) (r v x : ℕ)

theorem reg_set : (c.set r v).reg x = if x = r then v % 65536 else c.reg x := rfl
@[simp] theorem bus_set : (c.set r v).bus = c.bus := rfl
@[simp] theorem bus_after : (c.after r).bus = c.bus := by
  unfold after
  split <;> rfl

end Core

end IntvNetplay.Machine

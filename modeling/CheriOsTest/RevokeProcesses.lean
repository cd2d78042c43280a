import CheriOsTest.ChunkBounds
import CheriOsTest.Verdicts
set_option autoImplicit false

/-! The libcheri_caprevoke tests with a second process: a forked child that revokes or ends a
revocation that its parent has begun, and a spawned child that starts from nothing. -/

namespace CheriOsTest.Revoke
open CheriOsTest.Capabilities CheriOsTest.CStrings CheriOsTest.Harness CheriOsTest.Programs

def bigblockCaps : Nat := 4096

/-- What the tests rely on in a format that rounds bounds: the block starts at a page, and
`cheri_bounds_set` is exact where the format represents what it is asked for. -/
structure Platform.Rounds (p : Platform) : Prop extends p.Revokes where
  page : ∀ n c, p.mmap n = some c → 4096 ∣ c.address
  boundsSet : ∀ c n, Representable c.address n → p.boundsSet c n = c.boundsSet n

/-- Each draw of 1023 that is made with 1024 capabilities left comes at an even offset. -/
def EvenDraws (rand : Nat → Nat) (rands : Nat) : Prop :=
  ∀ k, rand (rands+k)%1024 = 1023 → drawn rand rands k+1024 ≤ bigblockCaps →
    Even (drawn rand rands k)

section Passing

variable {p : Platform} {m s : Machine} {rand : Nat → Nat}

theorem Platform.Rounds.bounds {b : Capability} {rands : Nat} (hp : p.Rounds)
    (hb : 4096 ∣ b.address) (heven : EvenDraws rand rands) :
    ∀ c ∈ randomChunks rand rands bigblockCaps 0, p.Bounds b c.1 c.2 := by
  intro c hc
  have hexact := (chunks_representable_iff b hb rand rands bigblockCaps).mpr heven c.1 c.2 hc
  exact hp.boundsSet _ _ hexact

end Passing

end CheriOsTest.Revoke

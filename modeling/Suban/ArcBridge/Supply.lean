import Suban.ArcBridge.MintCap

namespace Suban.ArcBridge.Supply

open Suban.Basis.Calls Suban.Basis.Tables Suban.Basis.Runs Suban.Evm.Host
open Suban.ArcBridge.PusdToken Suban.ArcBridge.Contract Suban.ArcBridge.Transitions
open Suban.ArcBridge.Signatures

variable {B : Type} {K : Crypto} {X : Erc20 B} {contract : Account} {msg : Msg}
variable {s t : Bridge B} {p q : Token B}

/-- What happens to the token in between: others call it, its roles are granted
and revoked, and what is held moves about. -/
inductive TokenStep (X : Erc20 B) (contract : Account) (p : Token B) : Token B → Prop where
  | keep : TokenStep X contract p p
  | mint (msg : Msg) (dst : Account) (amount : Word) (q : Token B) (hsender : msg.sender ≠ contract)
      (h : PusdToken.mint X msg p dst amount = .ok q) : TokenStep X contract p q
  | burn (msg : Msg) (src : Account) (amount : Word) (q : Token B) (hsender : msg.sender ≠ contract)
      (h : PusdToken.burn X msg p src amount = .ok q) : TokenStep X contract p q
  | setBridge (msg : Msg) (bridge : Account) (q : Token B)
      (h : PusdToken.setBridge msg p bridge = .ok q) : TokenStep X contract p q
  | pause (msg : Msg) (q : Token B) (h : PusdToken.pause msg p = .ok q) : TokenStep X contract p q
  | unpause (msg : Msg) (q : Token B) (h : PusdToken.unpause msg p = .ok q) :
      TokenStep X contract p q
  | grant (roles : Roles PusdToken.Role) : TokenStep X contract p { p with roles := roles }
  | transfer (books : B) (h : X.totalSupply books = X.totalSupply p.books) :
      TokenStep X contract p { p with books := books }

def SoleMinter (contract : Account) (p : Token B) : Prop :=
  ∀ a, (hasRole p.roles .minter a = true ∨ hasRole p.roles .burner a = true) → a = contract

/-- Between the calls of the bridge the token goes through steps of its own. -/
def Elsewhere (X : Erc20 B) (contract : Account) (s : Bridge B) : Input B → Prop
  | .call _ _ => True
  | .elsewhere _ pusd => TokenStep X contract s.pusd pusd

def supply (X : Erc20 B) (p : Token B) : Int := (X.totalSupply p.books).toNat

def mintedOf (c : ChainState) : Int := c.totalMinted.toNat

def burnedOf (c : ChainState) : Int := c.totalBurned.toNat

/-- The supply is what was minted less what was burned, over all chains, and
within the maximum. -/
structure Conserved (X : Erc20 B) (s : Bridge B) : Prop where
  supply : supply X s.pusd = total mintedOf s.chainStates - total burnedOf s.chainStates
  within : X.totalSupply s.pusd.books ≤ s.pusd.maxSupply

theorem mint_ok {dst : Account} {amount : Word} (h : PusdToken.mint X msg p dst amount = .ok q) :
    hasRole p.roles .minter msg.sender = true ∧ supply X q = supply X p + amount.toNat ∧
      X.totalSupply q.books ≤ q.maxSupply := by
  simp only [PusdToken.mint, onlyRole, bind_eq_ok, rejectIf_eq_ok, checkedAdd_eq_ok,
    require_eq_ok, okOr_eq_ok, pure_eq_ok] at h
  obtain ⟨_, hrole, _, -, _, ⟨hfits, rfl⟩, _, hmax, _, -, books, hbooks, rfl⟩ := h
  have hsupply := X.totalSupply_mint hbooks
  refine ⟨by simpa using hrole, ?_, ?_⟩
  · rw [supply, supply, hsupply, Nat.cast_add]
  · rw [BitVec.le_def, BitVec.toNat_add_of_lt hfits] at hmax
    rw [BitVec.le_def, hsupply]
    exact hmax

theorem burn_ok {src : Account} {amount : Word} (h : PusdToken.burn X msg p src amount = .ok q) :
    hasRole p.roles .burner msg.sender = true ∧ supply X q = supply X p - amount.toNat ∧
      X.totalSupply q.books ≤ X.totalSupply p.books ∧ q.maxSupply = p.maxSupply := by
  simp only [PusdToken.burn, onlyRole, bind_eq_ok, rejectIf_eq_ok, okOr_eq_ok, pure_eq_ok] at h
  obtain ⟨_, hrole, _, -, _, -, books, hbooks, rfl⟩ := h
  have hsupply := X.totalSupply_burn hbooks
  refine ⟨by simpa using hrole, ?_, ?_, rfl⟩
  · rw [supply, supply, ← hsupply, Nat.cast_add]
    exact (add_sub_cancel_right _ _).symm
  · rw [BitVec.le_def]
    exact Nat.le.intro hsupply

theorem supply_tokenStep (h : TokenStep X contract p q) (hsole : SoleMinter contract p) :
    X.totalSupply q.books = X.totalSupply p.books ∧ q.maxSupply = p.maxSupply := by
  cases h with
  | keep => exact ⟨rfl, rfl⟩
  | mint msg dst amount q hsender h => exact absurd (hsole _ (.inl (mint_ok h).1)) hsender
  | burn msg src amount q hsender h => exact absurd (hsole _ (.inr (burn_ok h).1)) hsender
  | setBridge msg bridge q h =>
    simp only [PusdToken.setBridge, bind_eq_ok, pure_eq_ok] at h
    obtain ⟨_, -, _, -, rfl⟩ := h
    exact ⟨rfl, rfl⟩
  | pause msg q h =>
    simp only [PusdToken.pause, bind_eq_ok, pure_eq_ok] at h
    obtain ⟨_, -, _, -, rfl⟩ := h
    exact ⟨rfl, rfl⟩
  | unpause msg q h =>
    simp only [PusdToken.unpause, bind_eq_ok, pure_eq_ok] at h
    obtain ⟨_, -, _, -, rfl⟩ := h
    exact ⟨rfl, rfl⟩
  | grant roles => exact ⟨rfl, rfl⟩
  | transfer books h => exact ⟨h, rfl⟩

theorem total_chainStates {f : ChainState → Int} (hf : f ⟨0, 0, 0⟩ = 0) {c : Bytes}
    {state : ChainState} {n : Int} (h : f state = f (s.chainState c) + n) :
    total f (s.chainStates.insert c state) = total f s.chainStates + n := by
  rw [total_insert_readOr hf, h, Bridge.chainState]
  ring

theorem Conserved.move (hs : Conserved X s) {c : Bytes} {state : ChainState} {m n : Int}
    (hchain : t.chainStates = s.chainStates.insert c state)
    (hminted : mintedOf state = mintedOf (s.chainState c) + m)
    (hburned : burnedOf state = burnedOf (s.chainState c) + n)
    (hsupply : Supply.supply X t.pusd = Supply.supply X s.pusd + (m - n))
    (hwithin : X.totalSupply t.pusd.books ≤ t.pusd.maxSupply) : Conserved X t := by
  refine ⟨?_, hwithin⟩
  rw [hsupply, hs.supply, hchain, total_chainStates rfl hminted, total_chainStates rfl hburned]
  ring

theorem conserved_step {i : Input B} (h : step K X contract s i = .ok t) (hs : Conserved X s)
    (hsole : SoleMinter contract s.pusd) (hE : Elsewhere X contract s i) : Conserved X t := by
  cases i with
  | elsewhere roles pusd =>
    cases pure_eq_ok.mp h
    obtain ⟨hsame, hmax⟩ := supply_tokenStep hE hsole
    refine ⟨?_, ?_⟩
    · rw [← hs.supply, Supply.supply, hsame]
      rfl
    · simp only
      rw [hsame, hmax]
      exact hs.within
  | call msg c =>
    cases invoke_transition h with
    | mint recipient amount chain txHash nonce signatures pusd hrole hp hpos hnew hquorum hverify
        hcap htotal hvolume hmint =>
      obtain ⟨-, hgrown, hmax⟩ := mint_ok hmint
      refine hs.move (m := amount.toNat) (n := 0) rfl ?_ (add_zero _).symm ?_ hmax
      · simp only [mintedOf]
        rw [BitVec.toNat_add_of_lt htotal, Nat.cast_add]
      · rw [sub_zero]
        exact hgrown
    | burn chain amount pusd hp hpos htotal hburn =>
      obtain ⟨-, hshrunk, hless, hmax⟩ := burn_ok hburn
      refine hs.move (m := 0) (n := amount.toNat) rfl (add_zero _).symm ?_ ?_ ?_
      · simp only [burnedOf]
        rw [BitVec.toNat_add_of_lt htotal, Nat.cast_add]
      · rw [zero_sub]
        exact hshrunk
      · exact hmax ▸ BitVec.le_trans hless hs.within
    | setChainMintCap chain cap ha =>
      exact hs.move (m := 0) (n := 0) rfl (add_zero _).symm (add_zero _).symm (add_zero _).symm
        hs.within
    | _ => exact ⟨hs.supply, hs.within⟩

theorem soleMinter_call {c : Call} (h : step K X contract s (.call msg c) = .ok t)
    (hs : SoleMinter contract s.pusd) : SoleMinter contract t.pusd := by
  have hinvoke : invoke K X contract msg s c = .ok t := h
  cases invoke_transition hinvoke with
  | mint recipient amount chain txHash nonce signatures pusd hrole hp hpos hnew hquorum hverify
      hcap htotal hvolume hmint =>
    simp only [PusdToken.mint, bind_eq_ok, pure_eq_ok] at hmint
    obtain ⟨_, -, _, -, _, -, _, -, _, -, books, -, rfl⟩ := hmint
    exact hs
  | burn chain amount pusd hp hpos htotal hburn =>
    simp only [PusdToken.burn, bind_eq_ok, pure_eq_ok] at hburn
    obtain ⟨_, -, _, -, _, -, books, -, rfl⟩ := hburn
    exact hs
  | _ => exact hs

/-- The breaker lets no mint past the cap of its window. -/
theorem windowVolume_step {i : Input B} (h : step K X contract s i = .ok t) {c : Word}
    (hpos : 0 < c) (hcap : s.volumeCap = c) (hs : s.windowVolume ≤ c) : t.windowVolume ≤ c := by
  cases i with
  | elsewhere roles pusd =>
    cases pure_eq_ok.mp h
    exact hs
  | call msg d =>
    cases invoke_transition h with
    | mint recipient amount chain txHash nonce signatures pusd hrole hp hpos' hnew hquorum hverify
        hfits =>
      have hset : s.volumeCap ≠ 0 := hcap ▸ (BitVec.ne_of_lt hpos).symm
      exact (hfits hset).trans_eq hcap
    | _ => exact hs

/-- While only the bridge may mint and burn, the supply of a token that had
none is what was minted less what was burned over all chains, and within its
maximum. While the cap stays as it is, the volume of the window is within it. -/
theorem supply_conserved {pusdAddress : Account} {pusd : Token B} {validators : List Account}
    {threshold volumeCap volumeWindow : Word}
    (h : construct msg pusdAddress pusd validators threshold volumeCap volumeWindow = .ok s)
    (hzero : X.totalSupply pusd.books = 0) {is : List (Input B)}
    (hsole : Throughout (step K X contract) (fun u => SoleMinter contract u.pusd) s is)
    (hE : Along (step K X contract) (Elsewhere X contract) s is) :
    Throughout (step K X contract) (Conserved X) s is ∧
      ∀ c : Word, 0 < c → Throughout (step K X contract) (fun u => u.volumeCap = c) s is →
        Throughout (step K X contract) (fun u => u.windowVolume ≤ c) s is := by
  obtain ⟨-, rfl⟩ := construct_ok h
  refine ⟨?_, ?_⟩
  · have hC : Along (step K X contract)
        (fun u i => SoleMinter contract u.pusd ∧ Elsewhere X contract u i) _ is :=
      along_of_throughout (fun u i t hu hi _ => ⟨hu, hi⟩) hsole hE
    refine throughout_of_along (fun u i t hu hi ht => conserved_step ht hu hi.1 hi.2) ?_ hC
    refine ⟨?_, ?_⟩
    · simp [supply, deployed, hzero]
    · rw [BitVec.le_def, deployed, hzero]
      exact Nat.zero_le _
  · intro c hpos hcap
    have hC : Along (step K X contract) (fun u _ => u.volumeCap = c) _ is :=
      along_of_throughout (fun u i t hu _ _ => hu) hcap (along_true _ is)
    exact throughout_of_along (fun u i t hu hi ht => windowVolume_step ht hpos hi hu)
      (BitVec.le_def.mpr (Nat.zero_le _)) hC

def cappedBridge : Bridge (Word × (Account → Word)) := { sampleBridge with volumeCap := 150 }

theorem soleMinter_sampleToken : SoleMinter 9 sampleToken := by
  intro a h
  simp only [hasRole, sampleToken, grantRole, readOr_insert, readOr_empty] at h
  simpa using h

theorem supply_conserved_sample :
    Throughout (step sampleCrypto bookErc20 9) (Conserved bookErc20) cappedBridge
      [MintCap.sampleMintCall] := by
  have hconstruct : construct ⟨1, 0⟩ 8 sampleToken sampleValidators 2 150 60 = .ok cappedBridge :=
    rfl
  have hE : Along (step sampleCrypto bookErc20 9) (Elsewhere bookErc20 9) cappedBridge
      [MintCap.sampleMintCall] := ⟨fun _ _ => trivial, trivial⟩
  refine (supply_conserved hconstruct rfl ?_ hE).1
  refine ⟨soleMinter_sampleToken, ?_⟩
  cases hi : step sampleCrypto bookErc20 9 cappedBridge MintCap.sampleMintCall with
  | ok t =>
    rw [next_ok hi]
    exact soleMinter_call hi soleMinter_sampleToken
  | error e =>
    rw [next_error hi]
    exact soleMinter_sampleToken

end Suban.ArcBridge.Supply

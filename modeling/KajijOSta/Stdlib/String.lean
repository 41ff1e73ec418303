import KajijOSta.Lib.FlatMemory

/-! # The string functions

`stdlib/string.c` on the memory of the program. Addresses and `size_t` have 32 bits;
the loops run over the variables they change. -/
namespace KajijOSta.Stdlib
open KajijOSta.Program KajijOSta.FlatMemory

abbrev Ram := Flat UInt32 UInt8

/-! ## Blocks -/

def memset (s : UInt32) (c : Int32) (n : UInt32) : Prog Ram UInt32 := do
  Prog.loop (fun i : UInt32 =>
    if i < n then do
      store (s + i) c.toUInt32.toUInt8
      return .inl (i + 1)
    else return .inr ()) 0
  return s

/-- `for (size_t i = 0; i < n; i++) dstbuf[i] = srcbuf[i];` -/
def copyUp (dstbuf srcbuf n : UInt32) : Prog Ram Unit :=
  Prog.loop (fun i : UInt32 =>
    if i < n then do
      let b ← load (srcbuf + i)
      store (dstbuf + i) b
      return .inl (i + 1)
    else return .inr ()) 0

/-- `for (size_t i = n; i != 0; i--) dstbuf[i - 1] = srcbuf[i - 1];` -/
def copyDown (dstbuf srcbuf n : UInt32) : Prog Ram Unit :=
  Prog.loop (fun i : UInt32 =>
    if i ≠ 0 then do
      let b ← load (srcbuf + (i - 1))
      store (dstbuf + (i - 1)) b
      return .inl (i - 1)
    else return .inr ()) n

def memcpy (dest src n : UInt32) : Prog Ram UInt32 := do
  copyUp dest src n
  return dest

def memcmp (s1 s2 n : UInt32) : Prog Ram Int32 :=
  Prog.loop (fun i : UInt32 =>
    if i < n then do
      let b1 ← load (s1 + i)
      let b2 ← load (s2 + i)
      if b1 < b2 then return .inr (-1)
      else if b1 > b2 then return .inr 1
      else return .inl (i + 1)
    else return .inr 0) 0

def memmove (dest src n : UInt32) : Prog Ram UInt32 := do
  if dest < src then copyUp dest src n
  else copyDown dest src n
  return dest

/-! ## Strings -/

/-- `while (*s1 && *s1 == *s2) { s1++; s2++; }` -/
def skipCommon (s1 s2 : UInt32) : Prog Ram (UInt32 × UInt32) :=
  Prog.loop (fun s : UInt32 × UInt32 => do
    let c1 ← load s.1
    if c1 = 0 then return .inr s
    else do
      let c2 ← load s.2
      if c1 = c2 then return .inl (s.1 + 1, s.2 + 1)
      else return .inr s) (s1, s2)

/-- `strcmp`: 1 for equal strings. -/
def strcmp (s1 s2 : UInt32) : Prog Ram Int32 := do
  let s ← skipCommon s1 s2
  let c1 ← load s.1
  if c1 = 0 then do
    let c2 ← load s.2
    if c2 = 0 then return 1
    else return 0
  else return 0

/-- `while (*s != ' ' && *s != '\0') s++;` -/
def skipWord (s : UInt32) : Prog Ram UInt32 :=
  Prog.loop (fun s : UInt32 => do
    let c ← load s
    if c ≠ 0x20 ∧ c ≠ 0 then return .inl (s + 1)
    else return .inr s) s

/-- The loop over `idx`; no address where it returns NULL. -/
def seekField (s : UInt32) (idx : UInt8) : Prog Ram (Option UInt32) :=
  Prog.loop (fun x : UInt32 × UInt8 =>
    if x.2 = 0 then return .inr (some x.1)
    else do
      let s ← skipWord x.1
      let c ← load s
      if c = 0 then return .inr none
      else return .inl (s + 1, x.2 - 1)) (s, idx)

/-- `while (*end != '\0') { *end = '\0'; end++; }` -/
def zeroRest (stop : UInt32) : Prog Ram Unit :=
  Prog.loop (fun stop : UInt32 => do
    let c ← load stop
    if c ≠ 0 then do
      store stop 0
      return .inl (stop + 1)
    else return .inr ()) stop

/-- `get_string`; no address for NULL. -/
def getString (s : UInt32) (idx : UInt8) : Prog Ram (Option UInt32) := do
  match ← seekField s idx with
  | none => return none
  | some s =>
    let stop ← skipWord s
    zeroRest stop
    return some s

end KajijOSta.Stdlib

import Yabloko.Kernel.Mem

namespace Kernel

def setupkvm : Kernel Nat := do
  let kvm ← kalloc
  memset kvm 0 pgsize
  forM (List.range (phystop / (4 <<< 20))) fun i => do
    let pa := i * (4 <<< 20)
    let va := kernbase + pa
    store32 (kvm + 4 * pdx va) (pa ||| pteP ||| pteW ||| ptePS)
  return kvm

def switchkvm : Kernel Unit :=
  modify fun s => { s with cr3 := v2p s.kvm }

def kvmalloc : Kernel Unit := do
  let kvm ← setupkvm
  modify fun s => { s with kvm }
  switchkvm

def walkpgdir (pgdir va : Nat) (alloc : Bool) : Kernel Nat := do
  let pde := pgdir + 4 * pdx va
  let entry ← load32 pde
  if entry % 2 = 1 then
    return p2v (pteAddr entry) + 4 * ptx va
  else if !alloc then
    return 0
  else
    let pgtab ← kalloc
    if pgtab = 0 then
      return 0
    memset pgtab 0 pgsize
    store32 pde (v2p pgtab ||| pteP ||| pteW ||| pteU)
    return pgtab + 4 * ptx va

def mappages (pgdir va size pa perm : Nat) : Kernel Int :=
  go (2 ^ 20) (pgrounddown va) pa
where
  last : Nat := pgrounddown ((va + size + 2 ^ 32 - 1) % 2 ^ 32)
  go : Nat → Nat → Nat → Kernel Int
    | 0, _, _ => throw .diverges
    | fuel + 1, a, pa => do
      let pte ← walkpgdir pgdir a true
      if pte = 0 then
        return -1
      if (← load32 pte) % 2 = 1 then
        throw (.panic "remap")
      store32 pte (pa ||| perm ||| pteP)
      if a = last then
        return 0
      go fuel ((a + pgsize) % 2 ^ 32) ((pa + pgsize) % 2 ^ 32)

-- Each round takes a page, so the bound on the rounds is not reached.
def allocuvm (pgdir base top : Nat) : Kernel Int :=
  go (phystop / pgsize + 1) (pgroundup base)
where
  go : Nat → Nat → Kernel Int
    | 0, _ => throw .diverges
    | fuel + 1, a => do
      if a < top then
        let pa ← kalloc
        if pa = 0 then
          return -1
        memset pa 0 pgsize
        if (← mappages pgdir a pgsize (v2p pa) (pteW ||| pteU)) < 0 then
          kfree pa
          return -1
        go fuel ((a + pgsize) % 2 ^ 32)
      else
        return 0

def freept (pt : Nat) : Kernel Unit := do
  forM (List.range nptentries) fun i => do
    let pte ← load32 (pt + 4 * i)
    if pte % 2 = 1 then
      kfree (p2v (pteAddr pte))
  kfree pt

def freevm (pgdir : Nat) : Kernel Unit := do
  forM (List.range (npdentries / 2)) fun i => do
    let pde ← load32 (pgdir + 4 * i)
    if pde % 2 = 1 then
      freept (p2v (pteAddr pde))
  kfree pgdir

end Kernel

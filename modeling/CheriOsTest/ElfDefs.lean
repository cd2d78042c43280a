import CheriOsTest.Bytes
set_option autoImplicit false

/-! The part of ELF64 and of the feature control note that the tool reads. The
tool copies file bytes into these structs on a little-endian build host. -/

namespace CheriOsTest.Elf
open CheriOsTest.Bytes

def EI_CLASS : Nat := 4
def EI_DATA : Nat := 5
def ELFCLASS64 : UInt8 := 2
def ELFDATA2LSB : UInt8 := 1
def PT_NOTE : UInt32 := 4
def NT_FREEBSD_FEATURE_CTL : UInt32 := 4
def NT_FREEBSD_FCTL_CHERI_REVOKE_DISABLE : UInt32 := 0x00000020
def NT_FREEBSD_FCTL_CHERI_REVOKE_ENABLE : UInt32 := 0x80000000

def readU16 (bs : List UInt8) (off : Nat) : UInt16 := UInt16.ofNat (leNat (pread bs off 2))
def readU32 (bs : List UInt8) (off : Nat) : UInt32 := UInt32.ofNat (leNat (pread bs off 4))
def readU64 (bs : List UInt8) (off : Nat) : UInt64 := UInt64.ofNat (leNat (pread bs off 8))

structure Elf64Ehdr where
  eIdent : List UInt8
  ePhoff : UInt64
  ePhentsize : UInt16
  ePhnum : UInt16
  deriving DecidableEq, Repr

def Elf64Ehdr.sizeof : Nat := 64

def Elf64Ehdr.ofBytes (bs : List UInt8) : Elf64Ehdr :=
  ⟨pread bs 0 16,readU64 bs 32,readU16 bs 54,readU16 bs 56⟩

structure Elf64Phdr where
  pType : UInt32
  pOffset : UInt64
  pFilesz : UInt64
  deriving DecidableEq, Repr

def Elf64Phdr.sizeof : Nat := 56

def Elf64Phdr.ofBytes (bs : List UInt8) : Elf64Phdr :=
  ⟨readU32 bs 0,readU64 bs 8,readU64 bs 32⟩

structure Elf64Nhdr where
  nNamesz : UInt32
  nDescsz : UInt32
  nType : UInt32
  deriving DecidableEq, Repr

def Elf64Nhdr.sizeof : Nat := 12

def Elf64Nhdr.ofBytes (bs : List UInt8) : Elf64Nhdr :=
  ⟨readU32 bs 0,readU32 bs 4,readU32 bs 8⟩

end CheriOsTest.Elf
